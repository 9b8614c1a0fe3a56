import Poolbeg.Rpc.InFlight

/-!
# Where a coalesced response comes from

The entry of a key and the channel a waiter listens on may be different ones after an overwrite or a
removal, and a waiter may subscribe to a channel whose message is already gone. Whatever happens to
the map, the channel a waiter subscribed to is of its own key, and a message that it still receives
was broadcast after the waiter arrived.

## What is said about a run

`ProducedBy`, `BeganBefore` and `Delivery` only mention the steps of a run, in the order they were
taken: which calls were made, which answers came, and what was broadcast before what. The result is
stated in these terms, so it does not depend on how the map and the channels are represented.
`CallHistory` is the link. It relates the steps of a run to what the calls and the channels hold at
its end, and it is kept by every step, whatever is overwritten, removed or cancelled.

## Those who come too late

A broadcast channel gives a receiver the messages sent after it subscribed. A call that looks up the
key between the leader's broadcast and its removal of the key gets a receiver that will see nothing.
It waits until the leader drops its sender, finds the channel closed, and executes by itself. Such a
call has `Missed` the broadcast, and it returns nothing that somebody else executed.

## Main definitions

* `ProducedBy`, `BeganBefore`, `Delivery`, `Provenance` — read off the steps of a run
* `CallHistory` — the steps of a run and the state at its end
* `PhaseMove` — what a step does to one call
* `CoalescerState.Missed` — the broadcast a call waits for is over

## Main results

* `callHistory_step`, `callHistory_run` — the history of every run
* `own_of_missed`, `executes_of_missed` — what becomes of those who come too late
* `coalesced_provenance` — where a response comes from
-/

namespace Poolbeg

open Lts

section Provenance

variable {κ τ ρ : Type}

/-- The upstream call of `j`, made for `key`, was answered with `resp`. -/
structure ProducedBy (as : List (CallAction κ ρ)) (key : κ) (j : ℕ) (resp : ρ) : Prop where
  called : .call j key ∈ as
  answered : .upstream j resp ∈ as

/-- The call `i` began, and `j` had not broadcast yet. Both are steps of one run, so this is an
order between them. -/
def BeganBefore (as : List (CallAction κ ρ)) (i : ℕ) (key : κ) (j : ℕ) : Prop :=
  ∃ pre post, as = pre ++ .call i key :: post ∧ .broadcast j ∉ pre

/-- The message is the response of an execution for the key of `i`, broadcast after `i` began. A
response is never handed to a call that was made only afterwards. -/
def Delivery (serialize : ρ → Option τ) (as : List (CallAction κ ρ)) (i : ℕ) (key : κ) (m : τ) :
    Prop :=
  ∃ j resp, ProducedBy as key j resp ∧ serialize resp = some m ∧ .broadcast j ∈ as ∧
    BeganBefore as i key j

/-- A response of an execution of its own, or one that was delivered. The second is read back from
the text that was broadcast. -/
inductive Provenance (serialize : ρ → Option τ) (deserialize : τ → Option ρ)
    (as : List (CallAction κ ρ)) (i : ℕ) (key : κ) : ρ → Prop
  | own {resp : ρ} (h : ProducedBy as key i resp) :
      Provenance serialize deserialize as i key resp
  | shared {m : τ} {resp : ρ} (h : Delivery serialize as i key m)
      (hresp : deserialize m = some resp) : Provenance serialize deserialize as i key resp

variable {serialize : ρ → Option τ} {deserialize : τ → Option ρ} {as : List (CallAction κ ρ)}
  {s t : CoalescerState κ τ ρ} {a : CallAction κ ρ} {i j : ℕ} {key : κ}

/-! ### What was said stays said -/

theorem ProducedBy.append {resp : ρ} (h : ProducedBy as key j resp) (bs : List (CallAction κ ρ)) :
    ProducedBy (as ++ bs) key j resp :=
  ⟨List.mem_append_left bs h.called, List.mem_append_left bs h.answered⟩

theorem BeganBefore.append (h : BeganBefore as i key j) (bs : List (CallAction κ ρ)) :
    BeganBefore (as ++ bs) i key j := by
  obtain ⟨pre, post, rfl, hpre⟩ := h
  exact ⟨pre, post ++ bs, List.append_assoc _ _ _, hpre⟩

theorem Delivery.append {m : τ} (h : Delivery serialize as i key m)
    (bs : List (CallAction κ ρ)) : Delivery serialize (as ++ bs) i key m := by
  obtain ⟨j, resp, hproduced, hm, hbroadcast, hbegan⟩ := h
  exact ⟨j, resp, hproduced.append bs, hm, List.mem_append_left bs hbroadcast, hbegan.append bs⟩

theorem Provenance.append {resp : ρ} (h : Provenance serialize deserialize as i key resp)
    (bs : List (CallAction κ ρ)) : Provenance serialize deserialize (as ++ bs) i key resp := by
  cases h with
  | own h => exact .own (h.append bs)
  | shared h hresp => exact .shared (h.append bs) hresp

/-! ### The invariant -/

/-- The answer of the upstream call a leader made. -/
def CallPhase.answer : CallPhase ρ → Option ρ
  | .executed _ resp => some resp
  | .sent _ resp => some resp
  | _ => none

/-- A call that is past its broadcast, if it made one. -/
def CallPhase.Spoken : CallPhase ρ → Prop
  | .sent _ _ => True
  | .returned _ => True
  | _ => False

/-- A call that is past its insertion, if it made one. -/
def CallPhase.Led : CallPhase ρ → Prop
  | .start => False
  | .waiting _ _ => False
  | .leading => False
  | _ => True

/-- What the steps of a run say about the calls and the channels at its end: who began, what was
answered, who has broadcast, who opened which channel, and what was sent on it before a waiter came
and after. -/
structure CallHistory (serialize : ρ → Option τ) (deserialize : τ → Option ρ)
    (as : List (CallAction κ ρ)) (s : CoalescerState κ τ ρ) : Prop where
  began : ∀ i key phase, s.calls i = some ⟨key, phase⟩ → .call i key ∈ as
  answered : ∀ i key phase resp, s.calls i = some ⟨key, phase⟩ → phase.answer = some resp →
    .upstream i resp ∈ as
  spoken : ∀ i, .broadcast i ∈ as → ∃ key phase, s.calls i = some ⟨key, phase⟩ ∧ phase.Spoken
  opener : ∀ ch (c : Channel κ τ), s.coalescer.channels[ch]? = some c → ∃ phase,
    s.calls c.owner = some ⟨c.key, phase⟩ ∧ phase.Led ∧ ∀ ch', phase.sender = some ch' → ch' = ch
  /-- The opener of an entry has not returned. -/
  entry : ∀ key ch (c : Channel κ τ), s.coalescer.inFlight key = some ch →
    s.coalescer.channels[ch]? = some c → ∀ resp, s.calls c.owner ≠ some ⟨c.key, .returned resp⟩
  message : ∀ (ch : ℕ) (c : Channel κ τ) m, s.coalescer.channels[ch]? = some c → m ∈ c.sent →
    ∃ resp, .upstream c.owner resp ∈ as ∧ serialize resp = some m ∧ .broadcast c.owner ∈ as
  /-- What a waiter has not seen yet was broadcast after it began. -/
  waiting : ∀ i key ch pos, s.calls i = some ⟨key, .waiting ch pos⟩ →
    ∃ (c : Channel κ τ) (pre post : List (CallAction κ ρ)),
      s.coalescer.channels[ch]? = some c ∧ c.key = key ∧
      as = pre ++ .call i key :: post ∧ (.broadcast c.owner ∈ pre → c.sent.length ≤ pos)
  returned : ∀ i key resp, s.calls i = some ⟨key, .returned resp⟩ →
    Provenance serialize deserialize as i key resp

/-! ### Moves of one call -/

variable [DecidableEq κ]

/-- What a step does to a call that has begun. A step of another call leaves it where it is. -/
inductive PhaseMove (deserialize : τ → Option ρ) (s : CoalescerState κ τ ρ) (j : ℕ) (key : κ) :
    CallPhase ρ → CallAction κ ρ → CallPhase ρ → Prop
  | stays {phase : CallPhase ρ} {a : CallAction κ ρ} (h : j ≠ a.index) :
      PhaseMove deserialize s j key phase a phase
  | lead : PhaseMove deserialize s j key .start (.lookup j) .leading
  | subscribe {ch : ℕ} {c : Channel κ τ} (hentry : s.coalescer.inFlight key = some ch)
      (hc : s.coalescer.channels[ch]? = some c) :
      PhaseMove deserialize s j key .start (.lookup j) (.waiting ch c.sent.length)
  | insert : PhaseMove deserialize s j key .leading (.insert j)
      (.executing s.coalescer.channels.length)
  | upstream {ch : ℕ} {resp : ρ} :
      PhaseMove deserialize s j key (.executing ch) (.upstream j resp) (.executed ch resp)
  | broadcast {ch : ℕ} {resp : ρ} :
      PhaseMove deserialize s j key (.executed ch resp) (.broadcast j) (.sent ch resp)
  | remove {ch : ℕ} {resp : ρ} :
      PhaseMove deserialize s j key (.sent ch resp) (.remove j) (.returned resp)
  | receive {ch pos : ℕ} {c : Channel κ τ} {m : τ} {resp : ρ}
      (hc : s.coalescer.channels[ch]? = some c) (hrecv : c.recv pos = .message m)
      (hresp : deserialize m = some resp) :
      PhaseMove deserialize s j key (.waiting ch pos) (.recv j) (.returned resp)
  | retry {ch pos : ℕ} : PhaseMove deserialize s j key (.waiting ch pos) (.recv j) .leading
  | leave {phase : CallPhase ρ} (hidle : phase.Idle) :
      PhaseMove deserialize s j key phase (.cancel j) .cancelled
  | abandon {ch : ℕ} : PhaseMove deserialize s j key (.executing ch) (.cancel j) .cancelled

theorem phaseMove (h : coalescerStep serialize deserialize s a = some t) {phase : CallPhase ρ}
    (hj : s.calls j = some ⟨key, phase⟩) :
    ∃ phase', t.calls j = some ⟨key, phase'⟩ ∧ PhaseMove deserialize s j key phase a phase' := by
  by_cases hja : j = a.index
  · cases callMove h with
    | call hcall =>
      obtain rfl := hja
      exact absurd (hj.symm.trans hcall) (Option.some_ne_none _)
    | lead hcall hentry =>
      obtain rfl := hja
      cases hj.symm.trans hcall
      exact ⟨_, s.calls_advance_self _ _ _, .lead⟩
    | subscribe hcall hentry hc =>
      obtain rfl := hja
      cases hj.symm.trans hcall
      exact ⟨_, s.calls_advance_self _ _ _, .subscribe hentry hc⟩
    | insert hcall =>
      obtain rfl := hja
      cases hj.symm.trans hcall
      exact ⟨_, s.calls_advance_self _ _ _, .insert⟩
    | upstream hcall =>
      obtain rfl := hja
      cases hj.symm.trans hcall
      exact ⟨_, s.calls_advance_self _ _ _, .upstream⟩
    | withhold hcall hm | broadcast hcall hm =>
      obtain rfl := hja
      cases hj.symm.trans hcall
      exact ⟨_, s.calls_advance_self _ _ _, .broadcast⟩
    | remove hcall =>
      obtain rfl := hja
      cases hj.symm.trans hcall
      exact ⟨_, s.calls_advance_self _ _ _, .remove⟩
    | receive hcall hc hrecv hresp =>
      obtain rfl := hja
      cases hj.symm.trans hcall
      exact ⟨_, s.calls_advance_self _ _ _, .receive hc hrecv hresp⟩
    | retry hcall hc hpending hunread =>
      obtain rfl := hja
      cases hj.symm.trans hcall
      exact ⟨_, s.calls_advance_self _ _ _, .retry⟩
    | leave hcall hidle =>
      obtain rfl := hja
      cases hj.symm.trans hcall
      exact ⟨_, s.calls_advance_self _ _ _, .leave hidle⟩
    | abandon hcall =>
      obtain rfl := hja
      cases hj.symm.trans hcall
      exact ⟨_, s.calls_advance_self _ _ _, .abandon⟩
  · exact ⟨phase, (calls_of_ne h hja).trans hj, .stays hja⟩

/-- A call has just begun, or was there and moved. -/
theorem began_or_phaseMove (h : coalescerStep serialize deserialize s a = some t)
    {phase' : CallPhase ρ} (hj : t.calls j = some ⟨key, phase'⟩) :
    a = .call j key ∧ phase' = .start ∨
      ∃ phase, s.calls j = some ⟨key, phase⟩ ∧ PhaseMove deserialize s j key phase a phase' := by
  cases hold : s.calls j with
  | some c =>
    obtain ⟨phase, hphase, hmove⟩ := phaseMove h hold
    cases hj.symm.trans hphase
    exact .inr ⟨c.phase, rfl, hmove⟩
  | none =>
    by_cases hja : j = a.index
    · cases callMove h with
      | call hcall =>
        obtain rfl := hja
        cases hj.symm.trans (s.calls_advance_self _ _ _)
        exact .inl ⟨rfl, rfl⟩
      | lead hcall | subscribe hcall | insert hcall | upstream hcall | withhold hcall
      | broadcast hcall | remove hcall | receive hcall | retry hcall | leave hcall
      | abandon hcall =>
        obtain rfl := hja
        exact absurd (hold.symm.trans hcall) (Option.some_ne_none _).symm
    · rw [calls_of_ne h hja] at hj
      exact absurd (hold.symm.trans hj) (Option.some_ne_none _).symm

omit [DecidableEq κ] in
theorem PhaseMove.led {phase phase' : CallPhase ρ}
    (h : PhaseMove deserialize s j key phase a phase') (hled : phase.Led) :
    phase'.Led ∧ ∀ ch, phase'.sender = some ch → phase.sender = some ch := by
  cases h with
  | stays => exact ⟨hled, fun _ hch => hch⟩
  | upstream | broadcast => exact ⟨trivial, fun _ hch => hch⟩
  | remove | leave | abandon =>
    exact ⟨trivial, fun _ hch => absurd hch (Option.some_ne_none _).symm⟩
  | lead | subscribe | insert | receive | retry => exact absurd hled not_false

omit [DecidableEq κ] in
theorem PhaseMove.spoken {phase phase' : CallPhase ρ}
    (h : PhaseMove deserialize s j key phase a phase') (hspoken : phase.Spoken) :
    phase'.Spoken := by
  cases h with
  | stays => exact hspoken
  | remove => trivial
  | leave hidle =>
    cases phase <;> first | exact absurd hidle not_false | exact absurd hspoken not_false
  | lead | subscribe | insert | upstream | broadcast | receive | retry | abandon =>
    exact absurd hspoken not_false

/-! ### Channels go on -/

omit [DecidableEq κ] in
theorem Coalescer.length_dropSender (k : Coalescer κ τ) (ch : ℕ) :
    (k.dropSender ch).channels.length = k.channels.length :=
  List.length_modify _ _ _

theorem length_step (h : coalescerStep serialize deserialize s a = some t) :
    s.coalescer.channels.length ≤ t.coalescer.channels.length := by
  cases ledgerStep h with
  | quiet hkept hcoalescer => rw [hcoalescer]
  | send hcall hm hcoalescer =>
    rw [hcoalescer, Coalescer.send, List.length_modify]
  | insert hi hcoalescer =>
    rw [hcoalescer, Coalescer.insert, List.length_append, Coalescer.length_remove]
    exact Nat.le_add_right _ _
  | finish hi hcoalescer =>
    rw [hcoalescer, Coalescer.length_dropSender, Coalescer.length_remove]
  | abandon hcall hcoalescer => rw [hcoalescer, Coalescer.length_dropSender]

/-- A channel keeps what it has until its opener broadcasts. -/
theorem channel_step (hs : s.coalescer.Accounted s.holding)
    (h : coalescerStep serialize deserialize s a = some t) {ch : ℕ} {c : Channel κ τ}
    (hc : s.coalescer.channels[ch]? = some c) :
    ∃ c', t.coalescer.channels[ch]? = some c' ∧ c'.key = c.key ∧ c'.owner = c.owner ∧
      (c'.sent = c.sent ∨ ∃ resp, s.calls c.owner = some ⟨c.key, .executed ch resp⟩) := by
  have hlt := (List.getElem?_eq_some_iff.mp hc).1
  obtain ⟨c', hc'⟩ : ∃ c', t.coalescer.channels[ch]? = some c' :=
    ⟨_, List.getElem?_eq_getElem (hlt.trans_le (length_step h))⟩
  refine ⟨c', hc', ?_⟩
  cases channelOrigin hs h hc' with
  | kept hold hkey howner hsent =>
    obtain rfl := Option.some.inj (hc.symm.trans hold)
    exact ⟨hkey.symm, howner.symm, .inl hsent.symm⟩
  | told hold hkey howner hcall hm hsent =>
    obtain rfl := Option.some.inj (hc.symm.trans hold)
    exact ⟨hkey.symm, howner.symm, .inr ⟨_, hkey ▸ howner ▸ hcall⟩⟩
  | opened hcall hch hsent => exact absurd hlt (hch ▸ lt_irrefl _)

/-- After its opener's broadcast, a channel gets no message. Its opener has one upstream call and
broadcasts once. -/
theorem CallHistory.channel_over (h : CallHistory serialize deserialize as s)
    (hs : s.coalescer.Accounted s.holding)
    (ht : coalescerStep serialize deserialize s a = some t) {ch : ℕ} {c : Channel κ τ}
    (hc : s.coalescer.channels[ch]? = some c) (hover : .broadcast c.owner ∈ as) :
    ∃ c', t.coalescer.channels[ch]? = some c' ∧ c'.key = c.key ∧ c'.owner = c.owner ∧
      c'.sent = c.sent := by
  obtain ⟨c', hc', hkey, howner, hsent | ⟨resp, hcall⟩⟩ := channel_step hs ht hc
  · exact ⟨c', hc', hkey, howner, hsent⟩
  · obtain ⟨key', phase, hphase, hspoken⟩ := h.spoken c.owner hover
    cases hcall.symm.trans hphase
    exact absurd hspoken not_false

omit [DecidableEq κ] in
theorem Channel.lt_of_recv {c : Channel κ τ} {pos : ℕ} {m : τ} (h : c.recv pos = .message m) :
    pos < c.sent.length := by
  by_contra hle
  rw [Channel.recv, List.drop_eq_nil_of_le (Nat.le_of_not_lt hle)] at h
  dsimp only at h
  split_ifs at h

omit [DecidableEq κ] in
/-- What a waiter receives was delivered to it. The waiter has not seen the message, so the message
was sent after it subscribed. -/
theorem CallHistory.delivery (h : CallHistory serialize deserialize as s) {ch pos : ℕ}
    {c : Channel κ τ} {m : τ} (hi : s.calls i = some ⟨key, .waiting ch pos⟩)
    (hc : s.coalescer.channels[ch]? = some c) (hrecv : c.recv pos = .message m) :
    Delivery serialize as i key m := by
  obtain ⟨c', pre, post, hc', rfl, has, hseen⟩ := h.waiting i key ch pos hi
  obtain rfl := Option.some.inj (hc.symm.trans hc')
  obtain ⟨resp, hanswered, hm, hbroadcast⟩ :=
    h.message ch c m hc (Channel.mem_sent_of_recv hrecv)
  obtain ⟨phase, hopener, -⟩ := h.opener ch c hc
  refine ⟨c.owner, resp, ⟨h.began _ _ _ hopener, hanswered⟩, hm, hbroadcast, pre, post, has, ?_⟩
  exact fun hpre => absurd (hseen hpre) (Nat.not_le.mpr (Channel.lt_of_recv hrecv))

/-! ### Every step keeps the history -/

theorem began_step (h : CallHistory serialize deserialize as s)
    (ht : coalescerStep serialize deserialize s a = some t) {phase : CallPhase ρ}
    (hi : t.calls i = some ⟨key, phase⟩) : .call i key ∈ as ++ [a] := by
  rcases began_or_phaseMove ht hi with ⟨rfl, -⟩ | ⟨phase₀, hold, -⟩
  · exact List.mem_concat_self
  · exact List.mem_append_left _ (h.began i key phase₀ hold)

theorem answered_step (h : CallHistory serialize deserialize as s)
    (ht : coalescerStep serialize deserialize s a = some t) {phase : CallPhase ρ} {resp : ρ}
    (hi : t.calls i = some ⟨key, phase⟩) (hanswer : phase.answer = some resp) :
    .upstream i resp ∈ as ++ [a] := by
  rcases began_or_phaseMove ht hi with ⟨-, rfl⟩ | ⟨phase₀, hold, hmove⟩
  · exact absurd hanswer (Option.some_ne_none _).symm
  · cases hmove with
    | stays => exact List.mem_append_left _ (h.answered i key phase resp hold hanswer)
    | upstream =>
      cases hanswer
      exact List.mem_concat_self
    | broadcast => exact List.mem_append_left _ (h.answered i key _ resp hold hanswer)
    | lead | subscribe | insert | remove | receive | retry | leave | abandon =>
      exact absurd hanswer (Option.some_ne_none _).symm

theorem opener_step (h : CallHistory serialize deserialize as s)
    (hs : s.coalescer.Accounted s.holding)
    (ht : coalescerStep serialize deserialize s a = some t) {ch : ℕ} {c : Channel κ τ}
    (hc : t.coalescer.channels[ch]? = some c) :
    ∃ phase, t.calls c.owner = some ⟨c.key, phase⟩ ∧ phase.Led ∧
      ∀ ch', phase.sender = some ch' → ch' = ch := by
  have hkept : ∀ c', s.coalescer.channels[ch]? = some c' → c'.key = c.key → c'.owner = c.owner →
      ∃ phase, t.calls c.owner = some ⟨c.key, phase⟩ ∧ phase.Led ∧
        ∀ ch', phase.sender = some ch' → ch' = ch := by
    intro c' hc' hkey howner
    obtain ⟨phase, hphase, hled, hsender⟩ := h.opener ch c' hc'
    obtain ⟨phase', hphase', hmove⟩ := phaseMove ht hphase
    obtain ⟨hled', hsender'⟩ := hmove.led hled
    exact ⟨phase', hkey ▸ howner ▸ hphase', hled', fun ch' hch' => hsender ch' (hsender' ch' hch')⟩
  cases channelOrigin hs ht hc with
  | kept hc' hkey howner hsent => exact hkept _ hc' hkey howner
  | told hc' hkey howner hcall hm hsent => exact hkept _ hc' hkey howner
  | opened hcall hch hsent =>
    obtain ⟨phase', hphase', hmove⟩ := phaseMove ht hcall
    cases hmove with
    | stays hne => exact absurd rfl hne
    | insert =>
      exact ⟨_, hphase', trivial, fun ch' hch' => (Option.some.inj hch').symm.trans hch.symm⟩

theorem spoken_step (h : CallHistory serialize deserialize as s)
    (ht : coalescerStep serialize deserialize s a = some t) (hi : .broadcast i ∈ as ++ [a]) :
    ∃ key phase, t.calls i = some ⟨key, phase⟩ ∧ phase.Spoken := by
  rcases List.mem_append.mp hi with hi | hi
  · obtain ⟨key, phase, hphase, hspoken⟩ := h.spoken i hi
    obtain ⟨phase', hphase', hmove⟩ := phaseMove ht hphase
    exact ⟨key, phase', hphase', hmove.spoken hspoken⟩
  · obtain rfl := List.mem_singleton.mp hi
    cases callMove ht with
    | withhold hcall hm | broadcast hcall hm =>
      exact ⟨_, _, s.calls_advance_self _ _ _, trivial⟩

theorem sent_step (h : CallHistory serialize deserialize as s)
    (hs : s.coalescer.Accounted s.holding)
    (ht : coalescerStep serialize deserialize s a = some t) {ch : ℕ} {c : Channel κ τ} {m : τ}
    (hc : t.coalescer.channels[ch]? = some c) (hm : m ∈ c.sent) :
    ∃ resp, .upstream c.owner resp ∈ as ++ [a] ∧ serialize resp = some m ∧
      .broadcast c.owner ∈ as ++ [a] := by
  rcases message_step hs ht hc hm with
    ⟨c', hc', howner, hm'⟩ | ⟨rfl, key, resp, hcall, hserialize⟩
  · obtain ⟨resp, hanswered, hserialize, hbroadcast⟩ := h.message ch c' m hc' hm'
    rw [howner] at hanswered hbroadcast
    exact ⟨resp, List.mem_append_left _ hanswered, hserialize, List.mem_append_left _ hbroadcast⟩
  · exact ⟨resp, List.mem_append_left _ (h.answered _ _ _ resp hcall rfl), hserialize,
      List.mem_concat_self⟩

/-- An entry was there and no call of its key has just removed it, or it has just been inserted. -/
theorem inFlight_step (h : coalescerStep serialize deserialize s a = some t) {ch : ℕ}
    (hentry : t.coalescer.inFlight key = some ch) :
    (s.coalescer.inFlight key = some ch ∧
        ∀ i phase, a = .remove i → s.calls i ≠ some ⟨key, phase⟩) ∨
      ch = s.coalescer.channels.length := by
  cases callMove h with
  | call | lead | subscribe | upstream | withhold | broadcast | receive | retry | leave | abandon =>
    exact .inl ⟨hentry, fun _ _ ha => by cases ha⟩
  | @insert i key' hcall =>
    change (s.coalescer.insert i key').inFlight key = some ch at hentry
    rw [Coalescer.inFlight_insert] at hentry
    by_cases hkey : key = key'
    · rw [hkey, Function.update_self] at hentry
      exact .inr (Option.some.inj hentry).symm
    · rw [Function.update_of_ne hkey, Coalescer.inFlight_remove,
        Function.update_of_ne hkey] at hentry
      exact .inl ⟨hentry, fun _ _ ha => by cases ha⟩
  | @remove i key' ch' resp hcall =>
    change (s.coalescer.remove key').inFlight key = some ch at hentry
    rw [Coalescer.inFlight_remove] at hentry
    by_cases hkey : key = key'
    · rw [hkey, Function.update_self] at hentry
      exact absurd hentry (Option.some_ne_none _).symm
    · rw [Function.update_of_ne hkey] at hentry
      refine .inl ⟨hentry, fun j phase ha hj => ?_⟩
      cases ha
      cases hcall.symm.trans hj
      exact hkey rfl

/-- The opener of an entry returns by removing the entry. So an entry whose opener has returned is
not there any more, and nobody subscribes to a channel that is over for good. -/
theorem entry_step (h : CallHistory serialize deserialize as s)
    (hs : s.coalescer.Accounted s.holding)
    (ht : coalescerStep serialize deserialize s a = some t) {ch : ℕ} {c : Channel κ τ}
    (hentry : t.coalescer.inFlight key = some ch) (hc : t.coalescer.channels[ch]? = some c)
    (resp : ρ) : t.calls c.owner ≠ some ⟨c.key, .returned resp⟩ := by
  intro hreturned
  obtain ⟨c₀, hc₀, rfl⟩ := (accounted_step hs ht).entry key ch hentry
  obtain rfl := Option.some.inj (hc.symm.trans hc₀)
  -- a channel that has just been opened belongs to a call that executes
  obtain ⟨c', hc', hkey, howner⟩ : ∃ c', s.coalescer.channels[ch]? = some c' ∧ c'.key = c.key ∧
      c'.owner = c.owner := by
    cases channelOrigin hs ht hc with
    | kept hc' hkey howner hsent => exact ⟨_, hc', hkey, howner⟩
    | told hc' hkey howner hcall hm hsent => exact ⟨_, hc', hkey, howner⟩
    | opened hcall hch hsent =>
      obtain ⟨phase', hphase', hmove⟩ := phaseMove ht hcall
      cases hmove with
      | stays hne => exact absurd rfl hne
      | insert => cases hreturned.symm.trans hphase'
  rcases inFlight_step ht hentry with ⟨hold, hremove⟩ | rfl
  · rcases began_or_phaseMove ht hreturned with ⟨-, hstart⟩ | ⟨phase, hphase, hmove⟩
    · cases hstart
    · cases hmove with
      | stays => exact h.entry _ ch c' hold hc' resp (by rw [hkey, howner]; exact hphase)
      | remove => exact hremove c.owner _ rfl hphase
      | receive =>
        obtain ⟨phase, hopener, hled, -⟩ := h.opener ch c' hc'
        rw [hkey, howner] at hopener
        cases hopener.symm.trans hphase
        exact hled
  · exact absurd (List.getElem?_eq_some_iff.mp hc').1 (lt_irrefl _)

theorem waiting_step (h : CallHistory serialize deserialize as s)
    (hs : s.coalescer.Accounted s.holding)
    (ht : coalescerStep serialize deserialize s a = some t) {ch pos : ℕ}
    (hi : t.calls i = some ⟨key, .waiting ch pos⟩) :
    ∃ (c : Channel κ τ) (pre post : List (CallAction κ ρ)),
      t.coalescer.channels[ch]? = some c ∧ c.key = key ∧
        as ++ [a] = pre ++ .call i key :: post ∧
          (.broadcast c.owner ∈ pre → c.sent.length ≤ pos) := by
  rcases began_or_phaseMove ht hi with ⟨-, hstart⟩ | ⟨phase, hphase, hmove⟩
  · cases hstart
  · cases hmove with
    | stays =>
      obtain ⟨c, pre, post, hc, hkey, has, hseen⟩ := h.waiting i key ch pos hphase
      obtain ⟨c', hc', hkey', howner, -⟩ := channel_step hs ht hc
      refine ⟨c', pre, post ++ [a], hc', hkey'.trans hkey, by simp [has], fun hpre => ?_⟩
      rw [howner] at hpre
      obtain ⟨c'', hc'', -, -, hsent⟩ :=
        h.channel_over hs ht hc (has ▸ List.mem_append_left _ hpre)
      obtain rfl := Option.some.inj (hc'.symm.trans hc'')
      exact hsent ▸ hseen hpre
    | @subscribe _ c hentry hc =>
      obtain ⟨c₀, hc₀, hkey⟩ := hs.entry key ch hentry
      obtain rfl := Option.some.inj (hc.symm.trans hc₀)
      obtain ⟨c', hc', hkey', howner, -⟩ := channel_step hs ht hc
      obtain ⟨pre, post, has⟩ := List.append_of_mem (h.began i key _ hphase)
      refine ⟨c', pre, post ++ [.lookup i], hc', hkey'.trans hkey, by simp [has], fun hpre => ?_⟩
      rw [howner] at hpre
      obtain ⟨c'', hc'', -, -, hsent⟩ :=
        h.channel_over hs ht hc (has ▸ List.mem_append_left _ hpre)
      obtain rfl := Option.some.inj (hc'.symm.trans hc'')
      exact hsent ▸ le_rfl

theorem returned_step (h : CallHistory serialize deserialize as s)
    (ht : coalescerStep serialize deserialize s a = some t) {resp : ρ}
    (hi : t.calls i = some ⟨key, .returned resp⟩) :
    Provenance serialize deserialize (as ++ [a]) i key resp := by
  rcases began_or_phaseMove ht hi with ⟨-, hstart⟩ | ⟨phase, hphase, hmove⟩
  · cases hstart
  · cases hmove with
    | stays => exact (h.returned i key resp hphase).append _
    | remove =>
      exact (Provenance.own ⟨h.began i key _ hphase, h.answered i key _ resp hphase rfl⟩).append _
    | receive hc hrecv hresp =>
      exact (Provenance.shared (h.delivery hphase hc hrecv) hresp).append _

omit [DecidableEq κ] in
theorem callHistory_init :
    CallHistory serialize deserialize [] (.init : CoalescerState κ τ ρ) where
  began := fun _ _ _ hi => absurd hi (Option.some_ne_none _).symm
  answered := fun _ _ _ _ hi => absurd hi (Option.some_ne_none _).symm
  spoken := fun _ hi => absurd hi List.not_mem_nil
  opener := fun ch c hc => absurd hc (by simp [CoalescerState.init, Coalescer.new])
  entry := fun _ _ _ hentry => absurd hentry (Option.some_ne_none _).symm
  message := fun ch c m hc => absurd hc (by simp [CoalescerState.init, Coalescer.new])
  waiting := fun _ _ _ _ hi => absurd hi (Option.some_ne_none _).symm
  returned := fun _ _ _ hi => absurd hi (Option.some_ne_none _).symm

theorem callHistory_step (h : CallHistory serialize deserialize as s)
    (hs : s.coalescer.Accounted s.holding)
    (ht : coalescerStep serialize deserialize s a = some t) :
    CallHistory serialize deserialize (as ++ [a]) t where
  began := fun _ _ _ hi => began_step h ht hi
  answered := fun _ _ _ _ hi hanswer => answered_step h ht hi hanswer
  spoken := fun _ hi => spoken_step h ht hi
  opener := fun _ _ hc => opener_step h hs ht hc
  entry := fun _ _ _ hentry hc resp => entry_step h hs ht hentry hc resp
  message := fun _ _ _ hc hm => sent_step h hs ht hc hm
  waiting := fun _ _ _ _ hi => waiting_step h hs ht hi
  returned := fun _ _ _ hi => returned_step h ht hi

theorem accounted_run (h : run (coalescerStep serialize deserialize) .init as = some s) :
    s.coalescer.Accounted s.holding :=
  run_inv (I := fun s => s.coalescer.Accounted s.holding)
    (fun _ _ _ hs ht => accounted_step hs ht) .new h

theorem callHistory_run (h : run (coalescerStep serialize deserialize) .init as = some s) :
    CallHistory serialize deserialize as s :=
  run_history callHistory_init
    (fun _ _ _ _ hrun hs ht => callHistory_step hs (accounted_run hrun) ht) h

/-! ### A call that missed the broadcast -/

/-- The call waits on a channel whose opener has broadcast, and has seen all of it. -/
def CoalescerState.Missed (as : List (CallAction κ ρ)) (s : CoalescerState κ τ ρ) (i : ℕ)
    (key : κ) (j : ℕ) : Prop :=
  ∃ ch pos c, s.calls i = some ⟨key, .waiting ch pos⟩ ∧ s.coalescer.channels[ch]? = some c ∧
    c.owner = j ∧ .broadcast j ∈ as ∧ c.sent.length ≤ pos

/-- A call that is to execute, executes, or has returned what it executed itself. It is what a call
stays once it leads. -/
def CallPhase.OnItsOwn (bs : List (CallAction κ ρ)) (i : ℕ) : CallPhase ρ → Prop
  | .start => False
  | .waiting _ _ => False
  | .leading => True
  | .executing _ => True
  | .executed _ resp => .upstream i resp ∈ bs
  | .sent _ resp => .upstream i resp ∈ bs
  | .returned resp => .upstream i resp ∈ bs
  | .cancelled => True

omit [DecidableEq κ] in
theorem PhaseMove.onItsOwn {bs : List (CallAction κ ρ)} {phase phase' : CallPhase ρ}
    (h : PhaseMove deserialize s j key phase a phase') (hown : phase.OnItsOwn bs j) :
    phase'.OnItsOwn (bs ++ [a]) j := by
  cases h with
  | stays =>
    cases phase with
    | start | waiting => exact absurd hown not_false
    | leading | executing | cancelled => trivial
    | executed | sent | returned => exact List.mem_append_left _ hown
  | upstream => exact List.mem_concat_self
  | broadcast | remove => exact List.mem_append_left _ hown
  | insert | leave | abandon => trivial
  | lead | subscribe | receive | retry => exact absurd hown not_false

/-- A call that missed the broadcast misses it still, or it is on its own. -/
theorem missed_step (h : CallHistory serialize deserialize as s)
    (hs : s.coalescer.Accounted s.holding) (bs : List (CallAction κ ρ))
    (ht : coalescerStep serialize deserialize s a = some t) (hmissed : s.Missed as i key j) :
    t.Missed (as ++ [a]) i key j ∨
      ∃ phase, t.calls i = some ⟨key, phase⟩ ∧ phase.OnItsOwn bs i := by
  obtain ⟨ch, pos, c, hi, hc, rfl, hover, hseen⟩ := hmissed
  obtain ⟨phase', hphase', hmove⟩ := phaseMove ht hi
  cases hmove with
  | stays =>
    obtain ⟨c', hc', -, howner, hsent⟩ := h.channel_over hs ht hc hover
    exact .inl ⟨ch, pos, c', hphase', hc', howner, List.mem_append_left _ hover, hsent ▸ hseen⟩
  | receive hc' hrecv =>
    obtain rfl := Option.some.inj (hc.symm.trans hc')
    exact absurd hseen (Nat.not_le.mpr (Channel.lt_of_recv hrecv))
  | retry | leave => exact .inr ⟨_, hphase', trivial⟩

/-- A call that missed the broadcast returns only what it executes itself, whatever else is
broadcast for its key in the meantime. -/
theorem own_of_missed (hrun : run (coalescerStep serialize deserialize) .init as = some s)
    {bs : List (CallAction κ ρ)}
    (hstart : s.Missed as i key j ∨ s.calls i = some ⟨key, .leading⟩)
    (hrest : run (coalescerStep serialize deserialize) s bs = some t) :
    t.Missed (as ++ bs) i key j ∨
      ∃ phase, t.calls i = some ⟨key, phase⟩ ∧ phase.OnItsOwn bs i := by
  refine run_history (H := fun bs t => t.Missed (as ++ bs) i key j ∨
    ∃ phase, t.calls i = some ⟨key, phase⟩ ∧ phase.OnItsOwn bs i) ?_ ?_ hrest
  · rw [List.append_nil]
    exact hstart.imp_right fun hi => ⟨.leading, hi, trivial⟩
  · intro bs u a v hu hbefore hv
    have huinit : run (coalescerStep serialize deserialize) .init (as ++ bs) = some u := by
      rw [run_append, hrun, Option.bind_some, hu]
    rcases hbefore with hmissed | ⟨phase, hphase, hown⟩
    · rw [← List.append_assoc]
      exact missed_step (callHistory_run huinit) (accounted_run huinit) _ hv hmissed
    · obtain ⟨phase', hphase', hmove⟩ := phaseMove hv hphase
      exact .inr ⟨phase', hphase', hmove.onItsOwn hown⟩

variable (serialize deserialize) in
/-- A call whose channel is closed turns to executing. -/
theorem executes_of_closed {ch pos : ℕ} {c : Channel κ τ}
    (hi : s.calls i = some ⟨key, .waiting ch pos⟩) (hc : s.coalescer.channels[ch]? = some c)
    (hseen : c.sent.length ≤ pos) (hclosed : c.senders = 0) :
    ∃ t ch', run (coalescerStep serialize deserialize) s [.recv i, .insert i] = some t ∧
      t.calls i = some ⟨key, .executing ch'⟩ := by
  have hrecv : c.recv pos = .closed := by
    rw [Channel.recv, List.drop_eq_nil_of_le hseen]
    exact if_pos hclosed
  have hleading : coalescerStep serialize deserialize s (.recv i) =
      some (s.advance i key .leading) := by
    simp only [coalescerStep, hi, hc, Option.bind_some, hrecv]
  obtain ⟨t, ht, hphase⟩ : ∃ t, coalescerStep serialize deserialize
      (s.advance i key .leading) (.insert i) = some t ∧
        t.calls i = some ⟨key, .executing s.coalescer.channels.length⟩ := by
    simp only [coalescerStep, s.calls_advance_self i key .leading]
    exact ⟨_, rfl, CoalescerState.calls_advance_self _ _ _ _⟩
  exact ⟨t, _, by rw [run_cons_of_step hleading, run_cons_of_step ht, run_nil], hphase⟩

/-- A call that missed the broadcast executes, at the latest when the opener has returned. One step
of the opener is enough, and it is always possible. -/
theorem executes_of_missed (h : CallHistory serialize deserialize as s)
    (hs : s.coalescer.Accounted s.holding) (hmissed : s.Missed as i key j) :
    ∃ bs t ch, (bs = [] ∨ bs = [.remove j]) ∧
      run (coalescerStep serialize deserialize) s (bs ++ [.recv i, .insert i]) = some t ∧
      t.calls i = some ⟨key, .executing ch⟩ := by
  obtain ⟨ch, pos, c, hi, hc, rfl, hover, hseen⟩ := hmissed
  obtain ⟨key', phase, hphase, hspoken⟩ := h.spoken c.owner hover
  obtain ⟨phase', hopener, -, hsender⟩ := h.opener ch c hc
  cases hphase.symm.trans hopener
  cases phase with
  | sent ch' resp =>
    obtain rfl := hsender ch' rfl
    obtain ⟨u, c', hu, hc', hclosed⟩ :=
      closes_of_sent serialize deserialize hs hphase
    obtain ⟨c'', hc'', -, -, hsent⟩ := h.channel_over hs hu hc hover
    obtain rfl := Option.some.inj (hc'.symm.trans hc'')
    have hiu : u.calls i = some ⟨key, .waiting ch' pos⟩ := by
      refine (calls_of_ne hu ?_).trans hi
      rintro rfl
      cases hi.symm.trans hphase
    obtain ⟨t, ch'', ht, hexecuting⟩ := executes_of_closed serialize deserialize
      hiu hc' (hsent ▸ hseen) hclosed
    exact ⟨[.remove c.owner], t, ch'', .inr rfl, (run_cons_of_step hu _).trans ht, hexecuting⟩
  | returned resp =>
    have hclosed : c.senders = 0 := by
      rw [hs.senders ch c hc, CoalescerState.holding_eq hphase, if_neg, if_neg]
      · exact (Option.some_ne_none _).symm
      · exact fun hentry => h.entry _ ch c hentry hc resp hphase
    obtain ⟨t, ch', ht, hexecuting⟩ := executes_of_closed serialize deserialize
      hi hc hseen hclosed
    exact ⟨[], t, ch', .inl rfl, ht, hexecuting⟩
  | _ => exact absurd hspoken not_false

/-- **Where a response comes from.** A call returns a response of an execution for its own key, its
own or one broadcast after it began; it receives no other; and a call that missed the broadcast, or
found no entry, executes by itself and returns nothing else. -/
theorem coalesced_provenance
    (hrun : run (coalescerStep serialize deserialize) .init as = some s) :
    (∀ i key resp, s.calls i = some ⟨key, .returned resp⟩ →
      Provenance serialize deserialize as i key resp) ∧
    (∀ i key ch pos c m, s.calls i = some ⟨key, .waiting ch pos⟩ →
      s.coalescer.channels[ch]? = some c → c.recv pos = .message m →
      Delivery serialize as i key m) ∧
    ∀ i key j, s.Missed as i key j ∨ s.calls i = some ⟨key, .leading⟩ →
      (∃ bs t ch, (∀ b ∈ bs, b = .remove j ∨ b = .recv i ∨ b = .insert i) ∧
        run (coalescerStep serialize deserialize) s bs = some t ∧
        t.calls i = some ⟨key, .executing ch⟩) ∧
      ∀ bs t resp, run (coalescerStep serialize deserialize) s bs = some t →
        t.calls i = some ⟨key, .returned resp⟩ → .upstream i resp ∈ bs := by
  have hhistory := callHistory_run hrun
  refine ⟨hhistory.returned, fun i key ch pos c m hi hc hrecv => hhistory.delivery hi hc hrecv,
    fun i key j hstart => ⟨?_, fun bs t resp hrest hreturned => ?_⟩⟩
  · rcases hstart with hmissed | hleading
    · obtain ⟨bs, t, ch, hbs, ht, hexecuting⟩ :=
        executes_of_missed hhistory (accounted_run hrun) hmissed
      refine ⟨bs ++ [.recv i, .insert i], t, ch, ?_, ht, hexecuting⟩
      rcases hbs with rfl | rfl
      · simp
      · simp
    · obtain ⟨t, ht⟩ :
          ∃ t, coalescerStep serialize deserialize s (.insert i) = some t := by
        simp only [coalescerStep, hleading]
        exact ⟨_, rfl⟩
      obtain ⟨phase, hphase, hmove⟩ := phaseMove ht hleading
      cases hmove with
      | stays hne => exact absurd rfl hne
      | insert => exact ⟨[.insert i], t, _, by simp, run_cons_of_step ht [], hphase⟩
  · rcases own_of_missed hrun hstart hrest with hmissed | ⟨phase, hphase, hown⟩
    · obtain ⟨ch, pos, c, hi, -⟩ := hmissed
      cases hreturned.symm.trans hi
    · cases hreturned.symm.trans hphase
      exact hown

end Provenance

/-- A client subscribes between the leader's broadcast and its return. -/
def lateCaller : List (CallAction String JsonRpcResponse) :=
  [.call 0 "poolbeg:1:5d", .lookup 0, .insert 0,
    .upstream 0 (.success (.ofU64 1) (.string "0x10")), .broadcast 0, .call 1 "poolbeg:1:5d",
    .lookup 1]

theorem lateCaller_executes :
    ∃ s, run (requestCoalescerStep .tree) .init lateCaller = some s ∧
      s.Missed lateCaller 1 "poolbeg:1:5d" 0 ∧
      ∀ bs t resp, run (requestCoalescerStep .tree) s bs = some t →
        t.calls 1 = some ⟨"poolbeg:1:5d", .returned resp⟩ → .upstream 1 resp ∈ bs := by
  obtain ⟨s, hrun, hmissed⟩ : ∃ s, run (requestCoalescerStep .tree) .init lateCaller = some s ∧
      s.Missed lateCaller 1 "poolbeg:1:5d" 0 :=
    ⟨_, rfl, 0, 1, _, rfl, rfl, rfl, by simp [lateCaller], le_rfl⟩
  exact ⟨s, hrun, hmissed, ((coalesced_provenance hrun).2.2 1 _ 0 (.inl hmissed)).2⟩

end Poolbeg
