import FepMaster.Lib.Transition
import FepMaster.UdpTask

/-!
# Where reports go

Runs of the server task over any datagrams, with the datagrams received so far as history.  The
destination of a report is the sender of the latest datagram, whatever that was
(`serverAddr_of_reach`), where it should be the latest to have asked for the master: the two agree
in the runs that `report_destination_iff` singles out.
-/

namespace FepMaster

open Transition

/-- The turns of the server task. -/
def udpLts : Lts UdpTask Turn where
  Init u := ∃ recvBuf, u = UdpTask.start recvBuf
  step u t := some (udpTurn u t).task

/-- The datagrams received so far, the latest first. -/
def receivedSoFar : Monitor UdpTask Turn (List Datagram) where
  init _ := []
  next h _ t _ := t.incoming.toList ++ h

/-- A state of the task and the datagrams it has received. -/
abbrev UdpRun := UdpTask × List Datagram

/-- The senders of the accepted Find Master requests, the latest first. -/
def askers (received : List Datagram) : List Endpoint :=
  (received.filter fun d => d.Asks).map Datagram.source

/-- The endpoint may be sent reports: the configured server, or one that has asked. -/
def IsServer (received : List Datagram) (e : Endpoint) : Prop :=
  e = configuredServer ∨ e ∈ askers received

/-- Where reports go if nothing but accepted requests redirects them. -/
def reportServer (received : List Datagram) : Endpoint :=
  (askers received).head?.getD configuredServer

/-- The report of a turn, if there is one, goes where `P` allows. -/
def ReportsTo (P : List Datagram → Endpoint → Prop) (x : UdpRun) (t : Turn) : Prop :=
  ∀ s, (udpTurn x.1 t).report = some s → P x.2 s.addr.endpoint

/-- When a report is due, the latest datagram, if there is one, has come from where `P` allows. -/
def LatestFrom (P : List Datagram → Endpoint → Prop) (x : UdpRun) (t : Turn) : Prop :=
  t.flagSendUdp = active → ∀ d, x.2.head? = some d → P x.2 d.source

/-- `server_addr` is the sender of the latest datagram. -/
def LatestSender (u : UdpTask) (received : List Datagram) : Prop :=
  u.serverAddr.endpoint = (received.head?.map Datagram.source).getD configuredServer

theorem configuredServer_of_start (recvBuf : Vector UInt8 10) :
    (UdpTask.start recvBuf).serverAddr.endpoint = configuredServer := by
  rw [SockaddrIn.endpoint, UdpTask.start, configuredSockaddr, ntohs_htons, configuredServer]

/-- One turn keeps `server_addr` the sender of the latest datagram. -/
theorem LatestSender.turn {u : UdpTask} {received : List Datagram}
    (latest : LatestSender u received) (t : Turn) :
    LatestSender (udpTurn u t).task (t.incoming.toList ++ received) := by
  rw [LatestSender, udpTurn_serverAddr]
  cases t.incoming with
  | none => exact latest
  | some d => exact endpoint_ip4addrPortToSockaddr d.source

theorem serverAddr_of_reach {x : UdpRun} (reached : (udpLts.watch receivedSoFar).Reach x) :
    LatestSender x.1 x.2 := by
  apply Lts.ReachWhile.invariant_watched (P := LatestSender) ?_ ?_ reached
  · intro u start
    rcases start with ⟨recvBuf, rfl⟩
    exact configuredServer_of_start recvBuf
  · intro u received t u' _ latest _ taken
    cases taken
    exact latest.turn t

/-- A report goes where the latest datagram came from. -/
theorem reportsTo_iff {P : List Datagram → Endpoint → Prop} (first : P [] configuredServer)
    {x : UdpRun} (latest : LatestSender x.1 x.2) (t : Turn) :
    ReportsTo P x t ↔ LatestFrom P x t := by
  rcases x with ⟨u, received⟩
  have destination : P received u.serverAddr.endpoint ↔
      ∀ d, received.head? = some d → P received d.source := by
    rw [latest]
    cases received with
    | nil => exact ⟨fun _ d none => (by cases none), fun _ => first⟩
    | cons d rest =>
        refine ⟨fun allowed d' same => ?_, fun all => all d rfl⟩
        cases same
        exact allowed
  rw [ReportsTo, LatestFrom, ← destination]
  simp only [udpTurn_report]
  constructor
  · intro allowed due
    exact allowed _ (if_pos due)
  · intro allowed s sent
    split at sent
    · next due =>
        cases sent
        exact allowed due
    · cases sent

theorem everyReport_iff {P : List Datagram → Endpoint → Prop} (first : P [] configuredServer)
    (recvBuf : Vector UInt8 10) (turns : List Turn) :
    (udpLts.watch receivedSoFar).EveryStep (fun x t _ => ReportsTo P x t)
        (.start recvBuf, []) turns ↔
      (udpLts.watch receivedSoFar).EveryStep (fun x t _ => LatestFrom P x t)
        (.start recvBuf, []) turns := by
  have start : (udpLts.watch receivedSoFar).Reach (.start recvBuf, []) :=
    .init ⟨⟨recvBuf, rfl⟩, rfl⟩
  refine Lts.everyStep_iff (G := fun _ => True) (fun _ _ _ _ => trivial) ?_ start trivial turns
  exact fun x t _ reached _ _ => reportsTo_iff first (serverAddr_of_reach reached) t

/-- Where reports should go is a server. -/
theorem isServer_reportServer (received : List Datagram) :
    IsServer received (reportServer received) := by
  rw [IsServer, reportServer]
  cases askers received with
  | nil => exact .inl rfl
  | cons e rest => exact .inr List.mem_cons_self

/-- **Report destinations.**  In every run, all reports go to servers exactly if, whenever a report
is due, the latest datagram has come from a server; and in addition no datagram but an accepted
request redirects them exactly if the latest datagram has then come from where they should go. -/
theorem report_destination_iff (recvBuf : Vector UInt8 10) (turns : List Turn) :
    ((udpLts.watch receivedSoFar).EveryStep (fun x t _ => ReportsTo IsServer x t)
        (.start recvBuf, []) turns ↔
      (udpLts.watch receivedSoFar).EveryStep (fun x t _ => LatestFrom IsServer x t)
        (.start recvBuf, []) turns) ∧
    ((udpLts.watch receivedSoFar).EveryStep
        (fun x t _ => ReportsTo IsServer x t ∧ ReportsTo (fun h e => e = reportServer h) x t)
        (.start recvBuf, []) turns ↔
      (udpLts.watch receivedSoFar).EveryStep
        (fun x t _ => LatestFrom (fun h e => e = reportServer h) x t)
        (.start recvBuf, []) turns) := by
  refine ⟨everyReport_iff (.inl rfl) recvBuf turns, ?_⟩
  rw [← everyReport_iff rfl recvBuf turns]
  have start : (udpLts.watch receivedSoFar).Reach (.start recvBuf, []) :=
    .init ⟨⟨recvBuf, rfl⟩, rfl⟩
  constructor
  · exact Lts.EveryStep.imp (fun _ _ _ _ _ both => both.2) start
  · refine Lts.EveryStep.imp (fun x t _ _ _ right => ⟨fun s sent => ?_, right⟩) start
    rw [right s sent]
    exact isServer_reportServer x.2

/-- One datagram of one byte, from anyone, takes the next report with it. -/
theorem report_redirected :
    ¬ ∀ (recvBuf : Vector UInt8 10) (turns : List Turn),
      (udpLts.watch receivedSoFar).EveryStep (fun x t _ => ReportsTo IsServer x t)
        (.start recvBuf, []) turns := by
  intro claim
  let stray : Datagram := ⟨⟨1, 1⟩, [0x00]⟩
  have every := claim (Vector.replicate 10 0)
    [{ Turn.idle with incoming := some stray }, { Turn.idle with flagSendUdp := active }]
  have sent := (every _ rfl).2 _ rfl |>.1 _ rfl
  rcases sent with configured | asked
  · exact absurd configured (by decide)
  · exact absurd asked (by decide)

end FepMaster
