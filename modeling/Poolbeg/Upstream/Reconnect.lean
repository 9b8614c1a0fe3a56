import Poolbeg.Backoff
import Poolbeg.Sources
import Poolbeg.Upstream.Notifications
import Poolbeg.Upstream.Polling
import Poolbeg.Upstream.PublicEndpoints

/-!
# When the subscriber connects, and to whom

The main loop `run` of `upstream/ws_subscriber.rs`, with `find_ws_upstream` and the sleeps. In every
round it looks for an upstream to connect to, stays with it until the session ends, and sleeps; if
there is no upstream, it sleeps at once. What happens within a session is `subscriberStep`.

## The wait

The wait starts at a second and doubles with every round that did not end well, up to a minute; a
session that returned `Ok`, because the upstream closed it or its stream ended, sets it back. A
round that finds no upstream counts as one that did not end well. `Round.wait` says this of the
rounds so far, without the variable in which the source keeps it, and the invariant is that the two
agree.

## Times and flags

The flags of the upstreams are what they are when a round begins. Each upstream is looked at once in
a round, for only one of the three roles is its own. Times are in nanoseconds, and a step may come
as late as it likes: a sleep is at least as long as it is asked for, and nothing more is known of
it.

## Main definitions

* `findWsUpstream`, `Found` — whom it finds
* `RunState`, `RunAction`, `runStep` — the loop
* `Round`, `Round.wait`, `readyAt` — what the rounds say about the next one

## Main results

* `found_findWsUpstream` — the first upstream that can be connected to
* `RunInv.begun_apart` — how far apart rounds are
* `subscriber_rounds` — the rounds of every run
-/

namespace Poolbeg

namespace WsSubscriber

open Lts Backoff

/-- `MIN_BACKOFF`. -/
def minBackoff : ℕ := second

/-- `MAX_BACKOFF`. -/
def maxBackoff : ℕ := 60 * second

/-! ### Whom it finds -/

section Find

variable {n : ℕ} (config : Fin n → UpstreamConfig) (clients : Fin n → UpstreamClient)

/-- What an upstream has to offer in the loop over a role: its id and its `ws_url`, if it is in the
traffic and has one. -/
def offered (role : UpstreamRole) (u : Fin n) : Option (String × String) :=
  if (config u).role = role ∧ (clients u).isHealthy = true ∧ (clients u).disabled = false then
    (config u).wsUrl.map fun wsUrl => ((config u).id, wsUrl)
  else none

/-- The id and the URL of the first healthy upstream with a `ws_url`, by role priority. -/
def findWsUpstream : Option (String × String) :=
  tierOrder.findSome? fun role => (List.finRange n).findSome? (offered config clients role)

/-- The upstream is in the traffic, and has this URL to connect to. -/
def Offers (u : Fin n) (wsUrl : String) : Prop :=
  (clients u).isHealthy = true ∧ (config u).wsUrl = some wsUrl

/-- No upstream that can be connected to goes before this one: none has a better role, and none of
the same role is configured earlier. -/
def First (u : Fin n) : Prop :=
  ∀ v wsUrl, Offers config clients v wsUrl →
    tierRank (config u).role < tierRank (config v).role ∨
      (config u).role = (config v).role ∧ u ≤ v

/-- What is found is the first upstream that can be connected to, or there is none. -/
def Found : Option (String × String) → Prop
  | some (id, wsUrl) =>
    ∃ u, (config u).id = id ∧ Offers config clients u wsUrl ∧ First config clients u
  | none => ∀ u wsUrl, ¬ Offers config clients u wsUrl

variable {config clients} {role : UpstreamRole} {u : Fin n} {id wsUrl : String}

theorem offered_eq_some : offered config clients role u = some (id, wsUrl) ↔
    (config u).role = role ∧ (config u).id = id ∧ Offers config clients u wsUrl := by
  rw [offered, Offers, Option.ite_none_right_eq_some, Option.map_eq_some_iff]
  constructor
  · rintro ⟨⟨hrole, hhealthy, -⟩, url, hurl, heq⟩
    cases heq
    exact ⟨hrole, rfl, hhealthy, hurl⟩
  · rintro ⟨hrole, rfl, hhealthy, hurl⟩
    have hdisabled : (clients u).disabled = false := by
      simpa [UpstreamClient.isHealthy] using (Bool.and_eq_true_iff.mp hhealthy).1
    exact ⟨⟨hrole, hhealthy, hdisabled⟩, wsUrl, hurl, rfl⟩

theorem Offers.offered_ne_none (h : Offers config clients u wsUrl) :
    offered config clients (config u).role u ≠ none :=
  Option.ne_none_iff_exists'.mpr ⟨_, offered_eq_some.mpr ⟨rfl, rfl, h⟩⟩

/-- **Whom the subscriber finds.** -/
theorem found_findWsUpstream : Found config clients (findWsUpstream config clients) := by
  cases hfind : findWsUpstream config clients with
  | none =>
    rw [findWsUpstream, List.findSome?_eq_none_iff] at hfind
    intro u wsUrl hoffers
    have htier := hfind _ (mem_tierOrder (config u).role)
    exact hoffers.offered_ne_none
      (List.findSome?_eq_none_iff.mp htier u (List.mem_finRange u))
  | some target =>
    obtain ⟨id, wsUrl⟩ := target
    obtain ⟨role, -, htier, hroles⟩ := exists_first_of_findSome? tierOrder_pairwise hfind
    obtain ⟨u, -, hu, hmembers⟩ :=
      exists_first_of_findSome? (List.sortedLT_finRange n).pairwise htier
    obtain ⟨rfl, hid, hoffers⟩ := offered_eq_some.mp hu
    refine ⟨u, hid, hoffers, fun v url hv => ?_⟩
    have hsome : (List.finRange n).findSome? (offered config clients (config v).role) ≠ none :=
      fun hnone => hv.offered_ne_none
        (List.findSome?_eq_none_iff.mp hnone v (List.mem_finRange v))
    rcases hroles _ (mem_tierOrder (config v).role) hsome with hsame | hlt
    · rcases hmembers v (List.mem_finRange v) (hsame ▸ hv.offered_ne_none) with rfl | hlt
      · exact .inr ⟨hsame, le_rfl⟩
      · exact .inr ⟨hsame, hlt.le⟩
    · exact .inl hlt

end Find

/-! ### The loop -/

/-- A round of the loop that is over: when it began and what the upstreams were like then, whom it
found, when it ended, and whether its session returned `Ok`. -/
structure Round (n : ℕ) where
  chosenAt : ℕ
  clients : Fin n → UpstreamClient
  found : Option (String × String)
  endedAt : ℕ
  clean : Bool

/-- Where the loop stands: at its beginning, in a session with the upstream it found then, or asleep
up to a time. -/
inductive RunPhase (n : ℕ)
  | choosing
  | session (chosenAt : ℕ) (clients : Fin n → UpstreamClient) (target : String × String)
      (clean : Bool)
  | sleeping (wake : ℕ)

structure RunState (n : ℕ) where
  task : SubscriberTask
  effects : List Effect
  phase : RunPhase n
  backoff : ℕ
  clock : ℕ
  rounds : List (Round n)

/-- `run` begins. -/
def RunState.init (n : ℕ) : RunState n where
  task := .init
  effects := []
  phase := .choosing
  backoff := minBackoff
  clock := 0
  rounds := []

inductive RunAction (n : ℕ)
  | choose (clients : Fin n → UpstreamClient)
  | session (a : SubscriberAction)
  | wake
  | pass (d : ℕ)

/-- The step lets `connect_and_subscribe` return `Ok`. -/
def SubscriberTask.returnsOk (w : SubscriberTask) : SubscriberAction → Bool
  | .frame .close | .frame .eof =>
    match w.phase with
    | .forwarding _ _ => true
    | _ => false
  | _ => false

variable {n : ℕ}

/-- The round is over, and the loop sleeps. -/
def RunState.rest (s : RunState n) (r : Round n) : RunState n :=
  let backoff := waitOf minBackoff s.backoff r.clean
  { s with phase := .sleeping (s.clock + backoff), backoff := backoff, rounds := s.rounds ++ [r] }

variable (chainId : ℕ) (config : Fin n → UpstreamConfig)

/-- One step of `run`. The wait that follows a session is set back as soon as its result is there.
Time passes only in steps of its own. -/
def runStep (s : RunState n) : RunAction n → Option (RunState n)
  | .choose clients =>
    match s.phase with
    | .choosing =>
      match findWsUpstream config clients with
      | none => some (s.rest ⟨s.clock, clients, none, s.clock, false⟩)
      | some target => some { s with phase := .session s.clock clients target false }
    | _ => none
  | .session a =>
    match s.phase with
    | .session chosenAt clients target clean =>
      (subscriberStep chainId s.task a).map fun (task, es) =>
        let s' := { s with task := task, effects := s.effects ++ es }
        match a with
        | .clearConnected => s'.rest ⟨chosenAt, clients, some target, s.clock, clean⟩
        | _ => { s' with phase := .session chosenAt clients target (clean || s.task.returnsOk a) }
    | _ => none
  | .wake =>
    match s.phase with
    | .sleeping wake =>
      if wake ≤ s.clock then
        some { s with phase := .choosing, backoff := min (s.backoff * 2) maxBackoff }
      else none
    | _ => none
  | .pass d => some { s with clock := s.clock + d }

/-- What a step of the loop does, branch by branch. -/
inductive RunMove (s : RunState n) : RunAction n → RunState n → Prop
  | nobody {clients : Fin n → UpstreamClient} (hphase : s.phase = .choosing)
      (hfind : findWsUpstream config clients = none) :
      RunMove s (.choose clients) (s.rest ⟨s.clock, clients, none, s.clock, false⟩)
  | enter {clients : Fin n → UpstreamClient} {target : String × String}
      (hphase : s.phase = .choosing) (hfind : findWsUpstream config clients = some target) :
      RunMove s (.choose clients) { s with phase := .session s.clock clients target false }
  | within {a : SubscriberAction} {task : SubscriberTask} {es : List Effect} {chosenAt : ℕ}
      {clients : Fin n → UpstreamClient} {target : String × String} {clean : Bool} (clean' : Bool)
      (hphase : s.phase = .session chosenAt clients target clean)
      (hstep : subscriberStep chainId s.task a = some (task, es)) :
      RunMove s (.session a)
        { s with
          task := task
          effects := s.effects ++ es
          phase := .session chosenAt clients target clean' }
  | leave {task : SubscriberTask} {es : List Effect} {chosenAt : ℕ}
      {clients : Fin n → UpstreamClient} {target : String × String} {clean : Bool}
      (hphase : s.phase = .session chosenAt clients target clean)
      (hstep : subscriberStep chainId s.task .clearConnected = some (task, es)) :
      RunMove s (.session .clearConnected)
        ({ s with task := task, effects := s.effects ++ es }.rest
          ⟨chosenAt, clients, some target, s.clock, clean⟩)
  | wake {wake : ℕ} (hphase : s.phase = .sleeping wake) (hle : wake ≤ s.clock) :
      RunMove s .wake { s with phase := .choosing, backoff := min (s.backoff * 2) maxBackoff }
  | pass (d : ℕ) : RunMove s (.pass d) { s with clock := s.clock + d }

variable {chainId config} {s t : RunState n} {a : RunAction n}

theorem runMove (h : runStep chainId config s a = some t) : RunMove chainId config s a t := by
  cases a with
  | choose clients =>
    simp only [runStep] at h
    split at h
    · rename_i hphase
      split at h <;> rename_i hfind <;> cases h
      · exact .nobody hphase hfind
      · exact .enter hphase hfind
    · cases h
  | session a =>
    simp only [runStep] at h
    split at h
    · rename_i hphase
      obtain ⟨⟨task, es⟩, hstep, rfl⟩ := Option.map_eq_some_iff.mp h
      cases a with
      | clearConnected => exact .leave hphase hstep
      | _ => exact .within _ hphase hstep
    · cases h
  | wake =>
    simp only [runStep] at h
    split at h
    · rename_i hphase
      split_ifs at h with hle
      cases h
      exact .wake hphase hle
    · cases h
  | pass d =>
    cases h
    exact .pass d

/-! ### When it is ready for the next round -/

/-- How long the loop sleeps after a round: a second after a session that returned `Ok`, and
otherwise a second doubled for every round since the last such session, that one included, but no
more than a minute. -/
def Round.wait (before : List (Round n)) (r : Round n) : ℕ :=
  if r.clean then minBackoff
  else min (minBackoff * 2 ^ streak (before.map Round.clean)) maxBackoff

/-- When the loop is ready for the round after these. -/
def readyAt (rounds : List (Round n)) : ℕ :=
  rounds.getLast?.elim 0 fun r => r.endedAt + r.wait rounds.dropLast

@[simp] theorem readyAt_concat (rounds : List (Round n)) (r : Round n) :
    readyAt (rounds ++ [r]) = r.endedAt + r.wait rounds := by
  simp [readyAt]

theorem minBackoff_le_maxBackoff : minBackoff ≤ maxBackoff := by
  decide

theorem waitOf_eq_wait (before : List (Round n)) (r : Round n) :
    waitOf minBackoff (waitAfter minBackoff maxBackoff (before.map Round.clean)) r.clean =
      r.wait before := by
  rw [waitOf, waitAfter_eq minBackoff_le_maxBackoff, Round.wait]

theorem Round.minBackoff_le_wait (before : List (Round n)) (r : Round n) :
    minBackoff ≤ r.wait before := by
  rw [← waitOf_eq_wait, waitOf]
  split_ifs
  · exact le_rfl
  · exact base_le_waitAfter minBackoff_le_maxBackoff _

/-- A round, and those before it. It began when the wait was over, and with the first upstream there
was. -/
structure RoundInv (config : Fin n → UpstreamConfig) (before : List (Round n)) (r : Round n) :
    Prop where
  ready : readyAt before ≤ r.chosenAt
  ended : r.chosenAt ≤ r.endedAt
  found : r.found = findWsUpstream config r.clients

/-- What the phase says of the rounds so far. -/
def RunPhase.Inv (config : Fin n → UpstreamConfig) (rounds : List (Round n)) (backoff clock : ℕ) :
    RunPhase n → Prop
  | .choosing =>
    backoff = waitAfter minBackoff maxBackoff (rounds.map Round.clean) ∧ readyAt rounds ≤ clock
  | .session chosenAt clients target _ =>
    backoff = waitAfter minBackoff maxBackoff (rounds.map Round.clean) ∧
      readyAt rounds ≤ chosenAt ∧ chosenAt ≤ clock ∧ findWsUpstream config clients = some target
  | .sleeping wake =>
    min (backoff * 2) maxBackoff = waitAfter minBackoff maxBackoff (rounds.map Round.clean) ∧
      wake = readyAt rounds

structure RunInv (config : Fin n → UpstreamConfig) (s : RunState n) : Prop where
  phase : s.phase.Inv config s.rounds s.backoff s.clock
  rounds : Backed (RoundInv config) s.rounds

theorem runInv_init : RunInv config (.init n) where
  phase := ⟨rfl, le_rfl⟩
  rounds := backed_nil

/-- A round ends, and the loop sleeps. -/
theorem RunInv.rest {r : Round n} (hs : RunInv config s) (hended : r.endedAt = s.clock)
    (hbackoff : s.backoff = waitAfter minBackoff maxBackoff (s.rounds.map Round.clean))
    (hr : RoundInv config s.rounds r) : RunInv config (s.rest r) where
  phase := by
    refine ⟨?_, ?_⟩
    · rw [RunState.rest, List.map_append, List.map_singleton, waitAfter_concat, ← hbackoff]
      rfl
    · rw [RunState.rest, readyAt_concat, hended, ← waitOf_eq_wait, ← hbackoff]
  rounds := backed_append_singleton.mpr ⟨hs.rounds, hr⟩

/-- Every step of the loop keeps the rounds in order. -/
theorem RunMove.inv (hs : RunInv config s) (h : RunMove chainId config s a t) :
    RunInv config t := by
  have hphaseInv := hs.phase
  cases h with
  | nobody hphase hfind =>
    rw [hphase] at hphaseInv
    exact hs.rest rfl hphaseInv.1 ⟨hphaseInv.2, le_rfl, hfind.symm⟩
  | enter hphase hfind =>
    rw [hphase] at hphaseInv
    exact ⟨⟨hphaseInv.1, hphaseInv.2, le_rfl, hfind⟩, hs.rounds⟩
  | within clean' hphase hstep =>
    rw [hphase] at hphaseInv
    exact ⟨hphaseInv, hs.rounds⟩
  | @leave task es _ _ _ _ hphase hstep =>
    rw [hphase] at hphaseInv
    obtain ⟨hbackoff, hready, hle, hfind⟩ := hphaseInv
    have hs' : RunInv config { s with task := task, effects := s.effects ++ es } :=
      ⟨hs.phase, hs.rounds⟩
    exact hs'.rest rfl hbackoff ⟨hready, hle, hfind.symm⟩
  | wake hphase hle =>
    rw [hphase] at hphaseInv
    obtain ⟨hbackoff, rfl⟩ := hphaseInv
    exact ⟨⟨hbackoff, hle⟩, hs.rounds⟩
  | pass d =>
    refine ⟨?_, hs.rounds⟩
    cases hphase : s.phase with
    | choosing =>
      rw [hphase] at hphaseInv
      exact ⟨hphaseInv.1, hphaseInv.2.trans (Nat.le_add_right _ _)⟩
    | session chosenAt clients target clean =>
      rw [hphase] at hphaseInv
      obtain ⟨hbackoff, hready, hle, hfind⟩ := hphaseInv
      exact ⟨hbackoff, hready, hle.trans (Nat.le_add_right _ _), hfind⟩
    | sleeping wake =>
      rw [hphase] at hphaseInv
      exact hphaseInv

/-! ### How far apart rounds are -/

/-- Whoever is ready has waited since each of the rounds began, and these have waited for each
other. Every wait is a second at least. -/
theorem apart_of_backed {rounds : List (Round n)} (h : Backed (RoundInv config) rounds) :
    (∀ r ∈ rounds, r.chosenAt + minBackoff ≤ readyAt rounds) ∧
      (rounds.map Round.chosenAt).Pairwise fun a b => a + minBackoff ≤ b := by
  induction rounds using List.reverseRecOn with
  | nil => exact ⟨fun r hr => absurd hr List.not_mem_nil, List.Pairwise.nil⟩
  | append_singleton rounds last ih =>
    obtain ⟨hrounds, hlast⟩ := backed_append_singleton.mp h
    obtain ⟨hready, hpairwise⟩ := ih hrounds
    have hwait := last.minBackoff_le_wait rounds
    rw [readyAt_concat, List.map_append, List.map_singleton, List.pairwise_append]
    refine ⟨fun r hr => ?_, hpairwise, List.pairwise_singleton _ _, ?_⟩
    · rcases List.mem_append.mp hr with hr | hr
      · have := hready r hr
        have := hlast.ready
        have := hlast.ended
        omega
      · rw [List.mem_singleton.mp hr]
        exact Nat.add_le_add hlast.ended hwait
    · intro begun hbegun next hnext
      obtain ⟨r, hr, rfl⟩ := List.mem_map.mp hbegun
      rw [List.mem_singleton.mp hnext]
      exact (hready r hr).trans hlast.ready

/-- When the rounds began, that of a session in progress included. -/
def RunState.begun (s : RunState n) : List ℕ :=
  s.rounds.map Round.chosenAt ++
    match s.phase with
    | .session chosenAt _ _ _ => [chosenAt]
    | _ => []

theorem RunInv.begun_apart (hs : RunInv config s) :
    s.begun.Pairwise fun a b => a + minBackoff ≤ b := by
  obtain ⟨hready, hpairwise⟩ := apart_of_backed hs.rounds
  have hphaseInv := hs.phase
  rw [RunState.begun]
  cases hphase : s.phase with
  | session chosenAt clients target clean =>
    rw [hphase] at hphaseInv
    refine List.pairwise_append.mpr ⟨hpairwise, List.pairwise_singleton _ _, ?_⟩
    intro begun hbegun next hnext
    obtain ⟨r, hr, rfl⟩ := List.mem_map.mp hbegun
    rw [List.mem_singleton.mp hnext]
    exact (hready r hr).trans hphaseInv.2.1
  | _ =>
    rw [List.append_nil]
    exact hpairwise

/-! ### Its sessions -/

/-- What a step of the loop is for its sessions. -/
def RunAction.inSession : RunAction n → Option SubscriberAction
  | .session a => some a
  | _ => none

theorem runSubscriber_concat {w w' w'' : SubscriberTask} {as : List SubscriberAction}
    {a : SubscriberAction} {es es' : List Effect}
    (hrun : runSubscriber chainId w as = some (w', es))
    (hstep : subscriberStep chainId w' a = some (w'', es')) :
    runSubscriber chainId w (as ++ [a]) = some (w'', es ++ es') := by
  induction as generalizing w es with
  | nil =>
    cases hrun
    simp [runSubscriber, hstep]
  | cons b as ih =>
    rw [runSubscriber, Option.bind_eq_some_iff] at hrun
    obtain ⟨⟨v, fs⟩, hb, hrest⟩ := hrun
    obtain ⟨⟨v', gs⟩, htail, heq⟩ := Option.map_eq_some_iff.mp hrest
    cases heq
    simp only [List.cons_append, runSubscriber, hb, Option.bind_some, ih htail, Option.map_some,
      List.append_assoc]

/-- What the loop does besides sleeping is what its sessions do. -/
theorem runSubscriber_inSession {as : List (RunAction n)}
    (hrun : run (runStep chainId config) (.init n) as = some t) :
    runSubscriber chainId .init (as.filterMap RunAction.inSession) = some (t.task, t.effects) := by
  refine run_history
    (H := fun as s => runSubscriber chainId .init (as.filterMap RunAction.inSession) =
      some (s.task, s.effects)) rfl (fun as s a t _ ih h => ?_) hrun
  rw [List.filterMap_append]
  cases runMove h with
  | within clean' hphase hstep => exact runSubscriber_concat ih hstep
  | leave hphase hstep => exact runSubscriber_concat ih hstep
  | _ => exact (congrArg _ (List.append_nil _)).trans ih

/-- **The rounds of the subscriber.** In every run, a round is with the first upstream that can be
connected to or finds that there is none, the next one begins no sooner than the wait that the
rounds so far call for has passed, and when it is awake again is just that. So whatever becomes of
the sessions, no more rounds begin within some time than it has seconds, and one. What it does is
what the sessions do, one after another. -/
theorem subscriber_rounds {as : List (RunAction n)}
    (hrun : run (runStep chainId config) (.init n) as = some t) :
    (∀ before r after, t.rounds = before ++ r :: after →
      Found config r.clients r.found ∧
        (∀ next ∈ after.head?, r.endedAt + r.wait before ≤ next.chosenAt) ∧
        (∀ wake, after = [] → t.phase = .sleeping wake → wake = r.endedAt + r.wait before)) ∧
      (∀ since upto, since ≤ upto →
        (t.begun.filter fun begun => since ≤ begun ∧ begun ≤ upto).length * minBackoff ≤
          upto - since + minBackoff) ∧
      runSubscriber chainId .init (as.filterMap RunAction.inSession) =
        some (t.task, t.effects) := by
  have ht : RunInv config t :=
    run_inv (fun _ _ _ hs h => (runMove h).inv hs) runInv_init hrun
  refine ⟨fun before r after hrounds => ⟨?_, fun next hnext => ?_, ?_⟩, fun since upto hle => ?_,
    runSubscriber_inSession hrun⟩
  · rw [(ht.rounds before r after hrounds).found]
    exact found_findWsUpstream
  · obtain ⟨rest, rfl⟩ := List.head?_eq_some_iff.mp hnext
    have hready := (ht.rounds (before ++ [r]) next rest (by simp [hrounds])).ready
    rwa [readyAt_concat] at hready
  · rintro wake rfl hphase
    have hphaseInv := ht.phase
    rw [hphase, hrounds] at hphaseInv
    exact hphaseInv.2.trans (readyAt_concat before r)
  · refine length_le_of_apart (ht.begun_apart.sublist List.filter_sublist) hle ?_
    intro begun hbegun
    simpa using (List.mem_filter.mp hbegun).2

/-! ### A run -/

/-- A fallback that is configured before the primary. -/
def fallbackFirst : Fin 2 → UpstreamConfig
  | 0 => ⟨"spare", .fallback, "http://spare", some "ws://spare", 100⟩
  | 1 => ⟨"main", .primary, "http://main", some "ws://main", 100⟩

/-- Whether each of the two is healthy. -/
def flags (spare main : Bool) : Fin 2 → UpstreamClient
  | 0 => (UpstreamClient.new (300 * second) 0).setHealthy spare
  | 1 => (UpstreamClient.new (300 * second) 0).setHealthy main

/-- A session that is closed by the spare upstream, then no upstream at all, then the main one. -/
def threeRounds : List (RunAction 2) :=
  [.choose (flags true false), .session (.connect true), .session (.frame (confirmationMsg "0xs")),
    .session .setConnected, .session (.frame .close), .session .clearConnected, .pass second, .wake,
    .choose (flags false false), .pass (2 * second), .wake, .choose (flags true true)]

/-- It waits for a second after the session, and for two when there is no upstream. -/
theorem threeRounds_begun : ∃ t,
    run (runStep 1 fallbackFirst) (.init 2) threeRounds = some t ∧
      t.rounds.map Round.found = [some ("spare", "ws://spare"), none] ∧
      t.begun = [0, second, 3 * second] ∧
      ∀ before r after, t.rounds = before ++ r :: after →
        Found fallbackFirst r.clients r.found ∧
          ∀ next ∈ after.head?, r.endedAt + r.wait before ≤ next.chosenAt := by
  have hsome : (run (runStep 1 fallbackFirst) (.init 2) threeRounds).map
      (fun t => (t.rounds.map Round.found, t.begun)) =
        some ([some ("spare", "ws://spare"), none], [0, second, 3 * second]) := by
    decide
  obtain ⟨t, hrun, heq⟩ := Option.map_eq_some_iff.mp hsome
  obtain ⟨hfound, hbegun⟩ := Prod.mk.inj heq
  refine ⟨t, hrun, hfound, hbegun, fun before r after hrounds => ?_⟩
  obtain ⟨hround, hwait, -⟩ := (subscriber_rounds hrun).1 before r after hrounds
  exact ⟨hround, hwait⟩

end WsSubscriber

end Poolbeg
