import Mathlib.Logic.Function.Basic
import Mathlib.Logic.Relation
import FepMaster.Lib.Fifo
import FepMaster.Lib.Transition

/-!
# The buzzer

`Drivers/Buzzer/buzzer.c`: `BuzzerServe` takes items from `BuzzerQueue`, sets the pin as the item
says and sleeps as long as it says.  A beep is two sends, the item that turns the pin on and the
one that turns it off; `ETH_link_callback` ends with two such sends of its own.  A send waits ten
ticks for room and its result is ignored.

What the pin will be once everything in the queue is served is `settles`; a beep in progress still
has its second item to send.  The pin stays on only if a send gives up on the second item of a beep
while the last item in the queue turns the pin on and no other task is about to turn it off
(`beep_ends`).
-/

namespace FepMaster

open Transition

/-! ## The code -/

/-- `struct BuzzerData`. -/
structure BuzzerData where
  state : UInt8
  life : UInt16
  deriving DecidableEq

/-- The branch `BuzzerServe` takes. -/
def BuzzerData.on (d : BuzzerData) : Bool := d.state != 0

/-- The items `BuzzerTick` sends. -/
def buzzerTick (timeMs : Int32) : List BuzzerData := [⟨1, timeMs.toUInt32.toUInt16⟩, ⟨0, 0⟩]

/-- The item `BuzzerOn` sends. -/
def buzzerOn : List BuzzerData := [⟨1, 0⟩]

/-- The item `BuzzerOff` sends. -/
def buzzerOff : List BuzzerData := [⟨0, 0⟩]

/-- The items sent at the end of `ETH_link_callback`. -/
def notifyBuzzer : List BuzzerData := [⟨1, 500⟩, ⟨0, 0⟩]

/-- A call that ends in the queue. -/
inductive BuzzerCall
  | tick (timeMs : Int32)
  | on
  | off
  | linkCallback
  deriving DecidableEq

/-- What it sends, one after the other. -/
def BuzzerCall.items : BuzzerCall → List BuzzerData
  | .tick timeMs => buzzerTick timeMs
  | .on => buzzerOn
  | .off => buzzerOff
  | .linkCallback => notifyBuzzer

/-- Where `BuzzerServe` is: in `xQueueReceive`, before it sets the pin, or asleep for some more
ticks. -/
inductive ServePc
  | receive
  | serve (buzzerData : BuzzerData)
  | delay (ticks : Nat)
  deriving DecidableEq

/-- The queue, the pin, the server, and of each task what it still has to send in its current call
and how many ticks it has waited for room. -/
structure Buzzer where
  buzzerQueue : Fifo BuzzerData 20
  pin : Bool
  server : ServePc
  pending : Nat → List BuzzerData
  waited : Nat → Nat

/-- `BuzzerInit`. -/
def Buzzer.init : Buzzer := ⟨Fifo.empty, false, .receive, fun _ => [], fun _ => 0⟩

/-- A call of a task, the two outcomes of the send it is in, a step of `BuzzerServe`, a tick. -/
inductive BuzzerAct
  | call (task : Nat) (c : BuzzerCall)
  | send (task : Nat)
  | timeout (task : Nat)
  | server
  | tick
  deriving DecidableEq

/-- The task goes on to what is left of its call. -/
def Buzzer.goOn (s : Buzzer) (task : Nat) (rest : List BuzzerData) : Buzzer :=
  { s with
    pending := Function.update s.pending task rest
    waited := Function.update s.waited task 0 }

theorem Buzzer.goOn_own (s : Buzzer) (task : Nat) (rest : List BuzzerData) :
    (s.goOn task rest).pending task = rest := Function.update_self ..

theorem Buzzer.goOn_other (s : Buzzer) {t task : Nat} (other : t ≠ task) (rest : List BuzzerData) :
    (s.goOn task rest).pending t = s.pending t := Function.update_of_ne other ..

/-- A step of `BuzzerServe`; in `xQueueReceive` and in `vTaskDelay` it waits. -/
def Buzzer.buzzerServe (s : Buzzer) : Option Buzzer :=
  match s.server with
  | .receive =>
      s.buzzerQueue.receive.map fun front =>
        { s with server := .serve front.1, buzzerQueue := front.2 }
  | .serve d => some { s with pin := d.on, server := .delay d.life.toNat }
  | .delay 0 => some { s with server := .receive }
  | .delay (_ + 1) => none

/-- `xQueueSend(BuzzerQueue, &data, 10)` with room. -/
def Buzzer.xQueueSend (s : Buzzer) (task : Nat) : Option Buzzer :=
  match s.pending task with
  | [] => none
  | d :: rest =>
      (s.buzzerQueue.send d).map fun q => { s with buzzerQueue := q }.goOn task rest

/-- The same after ten ticks with a full queue; the caller ignores the result. -/
def Buzzer.sendTimeout (s : Buzzer) (task : Nat) : Option Buzzer :=
  match s.pending task with
  | [] => none
  | _ :: rest =>
      if s.waited task < 10 ∨ s.buzzerQueue.items.length < 20 then none
      else some (s.goOn task rest)

/-- A tick for the server. -/
def ServePc.tick : ServePc → ServePc
  | .delay (ticks + 1) => .delay ticks
  | pc => pc

/-- The clock: the server's sleep gets shorter, the waiting times longer. -/
def Buzzer.tick (s : Buzzer) : Buzzer :=
  { s with server := s.server.tick, waited := fun t => s.waited t + 1 }

/-- One step. -/
def Buzzer.step (s : Buzzer) : BuzzerAct → Option Buzzer
  | .call task c => if s.pending task = [] then some (s.goOn task c.items) else none
  | .send task => s.xQueueSend task
  | .timeout task => s.sendTimeout task
  | .server => s.buzzerServe
  | .tick => some s.tick

/-- The system: any number of tasks, the server and the clock. -/
def buzzerLts : Lts Buzzer BuzzerAct where
  Init s := s = Buzzer.init
  step := Buzzer.step

/-! ## What the pin settles to -/

/-- The item that has been taken from the queue and not yet served. -/
def ServePc.held : ServePc → List BuzzerData
  | .serve d => [d]
  | _ => []

/-- What the pin will be when everything accepted so far has been served. -/
def Buzzer.settles (s : Buzzer) : Bool :=
  ((s.server.held ++ s.buzzerQueue.items).map BuzzerData.on).getLastD s.pin

/-- The queue is empty, the server waits for an item, and no call is in progress. -/
structure Buzzer.Quiet (s : Buzzer) : Prop where
  empty : s.buzzerQueue.items = []
  waiting : s.server = .receive
  idle : ∀ t, s.pending t = []

theorem Buzzer.settles_of_drained {s : Buzzer} (empty : s.buzzerQueue.items = [])
    (waiting : s.server = .receive) : s.settles = s.pin := by
  unfold settles
  rw [empty, waiting]
  rfl

/-- A step without the tasks. -/
def Buzzer.Alone (s s' : Buzzer) : Prop := s.buzzerServe = some s' ∨ s.tick = s'

/-- Serving changes neither what the pin settles to nor what is left to send. -/
theorem Buzzer.Alone.keeps {s s' : Buzzer} (alone : Alone s s') :
    s'.settles = s.settles ∧ s'.pending = s.pending := by
  rcases alone with served | rfl
  · unfold buzzerServe at served
    split at served
    · next waiting =>
        obtain ⟨front, received, rfl⟩ := Option.map_eq_some_iff.mp served
        have items := Fifo.receive_eq_some received
        refine ⟨?_, rfl⟩
        unfold settles
        rw [items, waiting]
        rfl
    · next d serving =>
        cases served
        refine ⟨?_, rfl⟩
        unfold settles
        rw [serving]
        exact List.getLastD_cons.symm
    · next awake =>
        cases served
        refine ⟨?_, rfl⟩
        unfold settles
        rw [awake]
        rfl
    · cases served
  · refine ⟨?_, rfl⟩
    have held : s.server.tick.held = s.server.held := by
      cases s.server with
      | delay ticks => cases ticks <;> rfl
      | _ => rfl
    unfold settles tick
    rw [held]

theorem Buzzer.Alone.keeps_all {s s' : Buzzer} (alone : Relation.ReflTransGen Alone s s') :
    s'.settles = s.settles ∧ s'.pending = s.pending := by
  induction alone with
  | refl => exact ⟨rfl, rfl⟩
  | tail _ last ih => exact ⟨last.keeps.1.trans ih.1, last.keeps.2.trans ih.2⟩

/-- The server wakes up. -/
theorem Buzzer.wakes {s : Buzzer} {ticks : Nat} (asleep : s.server = .delay ticks) :
    ∃ s', Relation.ReflTransGen Alone s s' ∧ s'.buzzerQueue = s.buzzerQueue ∧
      s'.server = .receive := by
  induction ticks generalizing s with
  | zero =>
      have woken : s.buzzerServe = some { s with server := .receive } := by
        unfold buzzerServe
        rw [asleep]
      exact ⟨_, .single (.inl woken), rfl, rfl⟩
  | succ ticks ih =>
      have shorter : s.tick.server = .delay ticks := by
        unfold tick
        rw [asleep]
        rfl
      obtain ⟨s', rest, same, waiting⟩ := ih shorter
      exact ⟨s', .head (.inr rfl) rest, same, waiting⟩

/-- The server gets back to the queue. -/
theorem Buzzer.returns (s : Buzzer) :
    ∃ s', Relation.ReflTransGen Alone s s' ∧ s'.buzzerQueue = s.buzzerQueue ∧
      s'.server = .receive := by
  cases place : s.server with
  | receive => exact ⟨s, .refl, rfl, place⟩
  | delay ticks => exact wakes place
  | serve d =>
      have served : s.buzzerServe =
          some { s with pin := d.on, server := .delay d.life.toNat } := by
        unfold buzzerServe
        rw [place]
      obtain ⟨s', rest, same, waiting⟩ :=
        wakes (s := { s with pin := d.on, server := .delay d.life.toNat }) rfl
      exact ⟨s', .head (.inl served) rest, same, waiting⟩

/-- Left alone, the server empties the queue, and the pin is then what it settles to. -/
theorem Buzzer.drains (s : Buzzer) :
    ∃ s', Relation.ReflTransGen Alone s s' ∧ s'.buzzerQueue.items = [] ∧
      s'.server = .receive ∧ s'.pin = s.settles := by
  generalize number : s.buzzerQueue.items.length = n
  induction n generalizing s with
  | zero =>
      obtain ⟨s', alone, same, waiting⟩ := s.returns
      have empty : s'.buzzerQueue.items = [] := by
        rw [same]
        exact List.length_eq_zero_iff.mp number
      refine ⟨s', alone, empty, waiting, ?_⟩
      rw [← settles_of_drained empty waiting, (Alone.keeps_all alone).1]
  | succ n ih =>
      obtain ⟨mid, alone, same, waiting⟩ := s.returns
      cases received : mid.buzzerQueue.receive with
      | none =>
          have empty := Fifo.receive_eq_none received
          rw [same] at empty
          rw [empty] at number
          cases number
      | some front =>
          have items := Fifo.receive_eq_some received
          have taken : mid.buzzerServe =
              some { mid with server := .serve front.1, buzzerQueue := front.2 } := by
            unfold buzzerServe
            rw [waiting, received]
            rfl
          have fewer : front.2.items.length = n := by
            rw [← same, items, List.length_cons] at number
            exact Nat.succ.inj number
          obtain ⟨s', rest, empty, idle, pin⟩ :=
            ih { mid with server := .serve front.1, buzzerQueue := front.2 } fewer
          refine ⟨s', alone.trans (.head (.inl taken) rest), empty, idle, ?_⟩
          rw [pin, (Alone.keeps (.inl taken)).1, (Alone.keeps_all alone).1]

/-! ## Beeps in progress -/

/-- Every call ends with an item that turns the pin off, and while the pin is to stay on a call is
in progress. -/
structure BuzzerInv (s : Buzzer) : Prop where
  ends : ∀ t d, (s.pending t).getLast? = some d → d.on = false
  off : s.settles = true → ∃ t, s.pending t ≠ []

/-- The task is at the last item of its call, the pin settles to on, and no other call is in
progress. -/
def Buzzer.Decisive (s : Buzzer) (task : Nat) : Prop :=
  ∃ d, s.pending task = [d] ∧ s.settles = true ∧ ∀ u, u ≠ task → s.pending u = []

/-- `BuzzerOn` is not called, and no send gives up on a decisive item. -/
def EndsBeeps (s : Buzzer) : BuzzerAct → Prop
  | .call _ c => c ≠ .on
  | .timeout task => ¬ s.Decisive task
  | _ => True

theorem BuzzerCall.items_ends {c : BuzzerCall} (notOn : c ≠ .on) {d : BuzzerData}
    (last : c.items.getLast? = some d) : d.on = false := by
  cases c with
  | on => exact absurd rfl notOn
  | _ => cases last; rfl

theorem BuzzerCall.items_ne_nil (c : BuzzerCall) : c.items ≠ [] := by
  cases c <;> exact List.cons_ne_nil _ _

/-- A task that goes on with items that end with a suitable one. -/
theorem Buzzer.ends_goOn {s : Buzzer}
    (ends : ∀ t d, (s.pending t).getLast? = some d → d.on = false) {task : Nat}
    {rest : List BuzzerData} (own : ∀ d, rest.getLast? = some d → d.on = false) (t : Nat)
    (d : BuzzerData) (last : ((s.goOn task rest).pending t).getLast? = some d) : d.on = false := by
  by_cases same : t = task
  · subst same
    rw [goOn_own] at last
    exact own d last
  · rw [goOn_other s same] at last
    exact ends t d last

theorem BuzzerInv.ends_rest {s : Buzzer} (inv : BuzzerInv s) {task : Nat} {d : BuzzerData}
    {rest : List BuzzerData} (sending : s.pending task = d :: rest) (e : BuzzerData)
    (last : rest.getLast? = some e) : e.on = false := by
  refine inv.ends task e ?_
  rw [sending]
  cases rest with
  | nil => cases last
  | cons next rest => exact last

theorem BuzzerInv.call {s : Buzzer} (inv : BuzzerInv s) (task : Nat) {c : BuzzerCall}
    (notOn : c ≠ .on) : BuzzerInv (s.goOn task c.items) where
  ends := Buzzer.ends_goOn inv.ends fun _ => BuzzerCall.items_ends notOn
  off := fun _ => ⟨task, by rw [Buzzer.goOn_own]; exact c.items_ne_nil⟩

/-- An item that is accepted decides what the pin settles to. -/
theorem Buzzer.settles_send {s : Buzzer} {task : Nat} {d : BuzzerData} {rest : List BuzzerData}
    {q : Fifo BuzzerData 20} (sent : s.buzzerQueue.send d = some q) :
    ({ s with buzzerQueue := q }.goOn task rest).settles = d.on := by
  have items : q.items = s.buzzerQueue.items ++ [d] := Fifo.send_eq_some sent
  unfold settles goOn
  rw [items, ← List.append_assoc, List.map_append]
  exact List.getLastD_concat

/-- Only the first item of a call turns the pin on, so the call goes on after it. -/
theorem BuzzerInv.send {s s' : Buzzer} (inv : BuzzerInv s) {task : Nat}
    (taken : s.xQueueSend task = some s') : BuzzerInv s' := by
  unfold Buzzer.xQueueSend at taken
  split at taken
  · cases taken
  · next d rest sending =>
      obtain ⟨q, sent, rfl⟩ := Option.map_eq_some_iff.mp taken
      refine ⟨Buzzer.ends_goOn (s := { s with buzzerQueue := q }) inv.ends
        (inv.ends_rest sending), fun stays => ⟨task, ?_⟩⟩
      rw [Buzzer.settles_send sent] at stays
      rw [Buzzer.goOn_own]
      intro last
      subst last
      have off := inv.ends task d (by rw [sending]; rfl)
      rw [stays] at off
      cases off

/-- Giving up on an item that is not the last of its call, or with the pin about to be turned off
anyway. -/
theorem BuzzerInv.timeout {s s' : Buzzer} (inv : BuzzerInv s) {task : Nat}
    (allowed : EndsBeeps s (.timeout task)) (taken : s.sendTimeout task = some s') :
    BuzzerInv s' := by
  unfold Buzzer.sendTimeout at taken
  split at taken
  · cases taken
  · next d rest sending =>
      split at taken
      · cases taken
      · cases taken
        refine ⟨Buzzer.ends_goOn inv.ends (inv.ends_rest sending), fun stays => ?_⟩
        cases rest with
        | nil =>
            by_contra idle
            refine allowed ⟨d, sending, stays, fun u other => ?_⟩
            by_contra busy
            exact idle ⟨u, by rw [Buzzer.goOn_other s other]; exact busy⟩
        | cons next rest =>
            exact ⟨task, by rw [Buzzer.goOn_own]; exact List.cons_ne_nil _ _⟩

theorem BuzzerInv.alone {s s' : Buzzer} (inv : BuzzerInv s) (alone : Buzzer.Alone s s') :
    BuzzerInv s' := by
  obtain ⟨settles, pending⟩ := alone.keeps
  refine ⟨?_, ?_⟩
  · rw [pending]
    exact inv.ends
  · rw [settles, pending]
    exact inv.off

theorem buzzerInv_of_reach {s : Buzzer} (reached : buzzerLts.ReachWhile EndsBeeps s) :
    BuzzerInv s := by
  apply Lts.ReachWhile.invariant (P := BuzzerInv) ?_ ?_ reached
  · intro s start
    cases start
    exact ⟨fun t d last => (by cases last), fun stays => (by cases stays)⟩
  · intro s a s' _ inv allowed taken
    cases a with
    | call task c =>
        unfold buzzerLts Buzzer.step at taken
        dsimp only at taken
        split at taken
        · cases taken
          exact inv.call task allowed
        · cases taken
    | send task => exact inv.send taken
    | timeout task => exact inv.timeout allowed taken
    | server => exact inv.alone (.inl taken)
    | tick => exact inv.alone (.inr (Option.some.inj taken))

/-- After a send that gives up on a decisive item the system, left alone, comes to rest with the
pin on. -/
theorem Buzzer.rests_on {s s' : Buzzer} {task : Nat} (decisive : s.Decisive task)
    (taken : s.sendTimeout task = some s') :
    ∃ s'', Relation.ReflTransGen Alone s' s'' ∧ s''.Quiet ∧ s''.pin = true := by
  obtain ⟨d, sending, stays, others⟩ := decisive
  unfold sendTimeout at taken
  rw [sending] at taken
  dsimp only at taken
  split at taken
  · cases taken
  · cases taken
    obtain ⟨s'', alone, empty, waiting, pin⟩ := (s.goOn task []).drains
    refine ⟨s'', alone, ⟨empty, waiting, fun t => ?_⟩, pin.trans stays⟩
    rw [(Alone.keeps_all alone).2]
    by_cases same : t = task
    · rw [same, goOn_own]
    · rw [goOn_other s same, others t same]

/-- **A timed beep ends.**  As long as no send gives up on a decisive item, the pin is off whenever
the buzzer is at rest; after one that does, the system left alone comes to rest with the pin on. -/
theorem beep_ends {s : Buzzer} (reached : buzzerLts.ReachWhile EndsBeeps s) :
    (s.Quiet → s.pin = false) ∧
      ∀ task s', s.Decisive task → buzzerLts.step s (.timeout task) = some s' →
        ∃ s'', Relation.ReflTransGen Buzzer.Alone s' s'' ∧ s''.Quiet ∧ s''.pin = true := by
  refine ⟨fun quiet => ?_, fun task s' decisive taken => Buzzer.rests_on decisive taken⟩
  have inv := buzzerInv_of_reach reached
  by_contra on
  rw [Bool.not_eq_false, ← Buzzer.settles_of_drained quiet.empty quiet.waiting] at on
  obtain ⟨t, busy⟩ := inv.off on
  exact busy (quiet.idle t)

/-! ## Runs of one task -/

/-- `BuzzerOn` is not called. -/
def NeverOn (_ : Buzzer) : BuzzerAct → Prop
  | .call _ c => c ≠ .on
  | _ => True

/-- A step of the first task, the server or the clock that is neither a call of `BuzzerOn` nor a
send that gives up. -/
def BuzzerAct.plain : BuzzerAct → Bool
  | .call task c => task == 0 && c != .on
  | .send task => task == 0
  | .timeout _ => false
  | _ => true

theorem BuzzerAct.plain_allowed {a : BuzzerAct} (plain : a.plain = true) (s : Buzzer) :
    EndsBeeps s a ∧ NeverOn s a := by
  cases a with
  | call task c =>
      have notOn : c ≠ .on := bne_iff_ne.mp (Bool.and_eq_true_iff.mp plain).2
      exact ⟨notOn, notOn⟩
  | timeout task => cases plain
  | _ => exact ⟨trivial, trivial⟩

/-- Such a step leaves the other tasks alone. -/
theorem Buzzer.step_plain {s s' : Buzzer} {a : BuzzerAct} (plain : a.plain = true)
    (taken : s.step a = some s') {u : Nat} (other : u ≠ 0) : s'.pending u = s.pending u := by
  cases a with
  | call task c =>
      have first : task = 0 := beq_iff_eq.mp (Bool.and_eq_true_iff.mp plain).1
      subst first
      unfold step at taken
      dsimp only at taken
      split at taken
      · cases taken
        exact goOn_other s other _
      · cases taken
  | send task =>
      have first : task = 0 := beq_iff_eq.mp plain
      subst first
      unfold step xQueueSend at taken
      dsimp only at taken
      split at taken
      · cases taken
      · obtain ⟨q, -, rfl⟩ := Option.map_eq_some_iff.mp taken
        exact goOn_other _ other _
  | timeout task => cases plain
  | server => rw [(Alone.keeps (.inl taken)).2]
  | tick => rw [(Alone.keeps (.inr (Option.some.inj taken))).2]

theorem Buzzer.exec_plain {labels : List BuzzerAct} (plain : ∀ a ∈ labels, a.plain = true)
    {s s' : Buzzer} (executed : buzzerLts.exec s labels = some s') {u : Nat} (other : u ≠ 0) :
    s'.pending u = s.pending u := by
  apply Lts.exec_invariant (P := fun now => now.pending u = s.pending u) rfl ?_ executed
  intro a member now next same taken
  exact (step_plain (plain a member) taken other).trans same

/-- Serving and ticks extend a run. -/
theorem NeverOn.alone {s s' : Buzzer} (reached : buzzerLts.ReachWhile NeverOn s)
    (alone : Relation.ReflTransGen Buzzer.Alone s s') : buzzerLts.ReachWhile NeverOn s' := by
  induction alone with
  | refl => exact reached
  | tail _ last ih =>
      rcases last with served | ticked
      · exact .step (a := .server) ih trivial served
      · exact .step (a := .tick) ih trivial (congrArg some ticked)

/-- A beep of two ticks on its own: the pin goes on, and is off when it is over. -/
theorem beep_ends_once :
    ∃ s, buzzerLts.ReachWhile EndsBeeps s ∧ s.Quiet ∧ s.pin = false := by
  let beep : List BuzzerAct := [.call 0 (.tick 2), .send 0, .send 0, .server, .server, .tick, .tick,
    .server, .server, .server, .server]
  have plain : ∀ a ∈ beep, a.plain = true := by decide
  have evaluated : ((buzzerLts.exec Buzzer.init beep).any fun s =>
      decide (s.buzzerQueue.items = [] ∧ s.server = .receive ∧ s.pending 0 = [])) =
        true := by decide
  obtain ⟨s, executed, holds⟩ := (Option.any_eq_true _ _).mp evaluated
  obtain ⟨empty, waiting, idle⟩ := of_decide_eq_true holds
  have reached := Lts.reachWhile_exec (.init rfl)
    (fun a member s => (BuzzerAct.plain_allowed (plain a member) s).1) executed
  have quiet : s.Quiet := by
    refine ⟨empty, waiting, fun t => ?_⟩
    by_cases first : t = 0
    · rw [first, idle]
    · rw [Buzzer.exec_plain plain executed first]
      rfl
  exact ⟨s, reached, quiet, (beep_ends reached).1 quiet⟩

/-- Eleven changes of the link within half a second: the queue is full when the last notification
is to turn the pin off. -/
def linkChanges : List BuzzerAct :=
  [.call 0 .linkCallback, .send 0, .server, .server, .send 0] ++
    (List.replicate 9 [.call 0 .linkCallback, .send 0, .send 0]).flatten ++
    [.call 0 .linkCallback, .send 0] ++ List.replicate 10 .tick

/-- The item is dropped, and the pin stays on. -/
theorem beep_stays_on :
    ¬ ∀ s, buzzerLts.ReachWhile NeverOn s → s.Quiet → s.pin = false := by
  intro claim
  have plain : ∀ a ∈ linkChanges, a.plain = true := by decide
  have evaluated : ((buzzerLts.exec Buzzer.init linkChanges).any fun s =>
      decide (s.pending 0 = [⟨0, 0⟩] ∧ s.settles = true ∧ (s.sendTimeout 0).isSome = true)) =
        true := by decide
  obtain ⟨s, executed, holds⟩ := (Option.any_eq_true _ _).mp evaluated
  obtain ⟨sending, stays, gives⟩ := of_decide_eq_true holds
  have reached := Lts.reachWhile_exec (.init rfl)
    (fun a member s => (BuzzerAct.plain_allowed (plain a member) s).2) executed
  obtain ⟨s', dropped⟩ := Option.isSome_iff_exists.mp gives
  have decisive : s.Decisive 0 :=
    ⟨⟨0, 0⟩, sending, stays, fun u other => by rw [Buzzer.exec_plain plain executed other]; rfl⟩
  obtain ⟨rest, alone, quiet, on⟩ := Buzzer.rests_on decisive dropped
  have rested := NeverOn.alone (.step (a := .timeout 0) reached trivial dropped) alone
  rw [claim rest rested quiet] at on
  cases on

end FepMaster
