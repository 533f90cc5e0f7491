import Mathlib.Data.List.Sort
import Mathlib.Tactic.Tauto
import ScriptLab.Host.Playground

/-!
# Sessions and their runners

What a request does to a playground is one of a few steps. Each of them keeps the sessions in order,
and keeps in use the runners of the open sessions and no others.
-/

namespace ScriptLab.Host

open Machine (Limits)

theorem bind_eq_ok_iff {ε α β : Type} {x : Except ε α} {f : α → Except ε β} {b : β} :
    x >>= f = .ok b ↔ ∃ a, x = .ok a ∧ f a = .ok b := by
  cases x <;> simp [bind, Except.bind]

/-- A runner is looked up by the name of its release. -/
theorem Registry.create_eq_ok_iff {registry : Registry} {name : String} {limits : Limits}
    {runner : Runner} :
    registry.create name limits = .ok runner ↔
      ∃ release, Entries.find? registry name = some release ∧ runner = { release, limits } := by
  unfold create
  cases Entries.find? registry name <;> simp [eq_comm]

namespace Playground

/-! ## Steps -/

/-- Seats a new runner, and binds a session to it. -/
def install (p : Playground) (session : Nat) (seat : Seat) : Playground :=
  { p with sessions := p.sessions.put session p.seats.size, seats := p.seats.push seat }

/-- Leaves a session without a runner. -/
def forget (p : Playground) (session : Nat) : Playground :=
  { p with sessions := p.sessions.erase session }

/-- Counts a session. -/
def countSession (p : Playground) : Playground :=
  { p with opened := p.opened + 1 }

theorem getElem?_install (p : Playground) (session : Nat) (seat : Seat) (place : Nat) :
    (p.install session seat).seats[place]? =
      if place = p.seats.size then some seat else p.seats[place]? :=
  Array.getElem?_push

theorem getElem?_disposeAt (p : Playground) (disposed place : Nat) :
    (p.disposeAt disposed).seats[place]? =
      if disposed = place then
        p.seats[place]?.map fun seat => { seat with runner := seat.runner.dispose }
      else p.seats[place]? :=
  Array.getElem?_modify

/-- A new runner of a release that writes to a sink. -/
def newSeat (p : Playground) (release : Release) (sink : Nat) : Seat :=
  ⟨{ release, limits := p.limits }, sink⟩

/-- A new playground has no sessions. -/
theorem create_ok {registry : Registry} {version : Option String} {limits : Limits}
    {p : Playground} (h : create registry version limits = .ok p) :
    ∃ name, p = { registry, defaultVersion := name, limits } := by
  unfold create at h
  split at h
  · split at h
    · cases h
      exact ⟨_, rfl⟩
    · cases h
  · split at h
    · cases h
      exact ⟨_, rfl⟩
    · cases h

/-- What a request may do, with its reply. -/
inductive Step (p : Playground) : Request → Reply → Playground → Prop
  | opening {version : Option String} {release : Release}
      (hrelease : Entries.find? p.registry (version.getD p.defaultVersion) = some release) :
      Step p (.opening version) (.opened p.opened)
        (p.install p.opened (p.newSeat release p.opened)).countSession
  | abort {session place : Nat} {seat : Seat} {release : Release}
      (hbound : p.sessions.find? session = some place) (hseat : p.seats[place]? = some seat)
      (hrelease : Entries.find? p.registry seat.runner.release.version = some release) :
      Step p (.abort session) .done
        ((p.install session (p.newSeat release seat.sink)).disposeAt place)
  | switch {session place : Nat} {seat : Seat} {version : String} {release : Release}
      (hbound : p.sessions.find? session = some place) (hseat : p.seats[place]? = some seat)
      (hrelease : Entries.find? p.registry version = some release) :
      Step p (.switch session version) .done
        ((p.install session (p.newSeat release seat.sink)).disposeAt place)
  | close {session place : Nat} {seat : Seat}
      (hbound : p.sessions.find? session = some place) (hseat : p.seats[place]? = some seat) :
      Step p (.close session) .done ((p.forget session).disposeAt place)
  | sessions : Step p .sessions (.listing p.listing) p
  | refused (request : Request) (refusal : Refusal) : Step p request (.refused refusal) p

theorem seat?_eq_ok_iff {p : Playground} {session place : Nat} {seat : Seat} :
    p.seat? session = .ok (place, seat) ↔
      p.sessions.find? session = some place ∧ p.seats[place]? = some seat := by
  unfold seat?
  cases hbound : p.sessions.find? session with
  | none => simp
  | some other =>
      dsimp only
      cases hseat : p.seats[other]? with
      | none =>
          simp only [reduceCtorEq, Option.some.injEq, false_iff, not_and]
          rintro rfl
          simp [hseat]
      | some found =>
          simp only [Except.ok.injEq, Prod.mk.injEq, Option.some.injEq]
          constructor
          · rintro ⟨rfl, rfl⟩
            exact ⟨rfl, hseat⟩
          · rintro ⟨rfl, h⟩
            exact ⟨rfl, Option.some.inj (hseat.symm.trans h)⟩

theorem openSession_eq_ok_iff {p q : Playground} {version : Option String} {session : Nat} :
    p.openSession version = .ok (q, session) ↔
      ∃ release, Entries.find? p.registry (version.getD p.defaultVersion) = some release ∧
        session = p.opened ∧
        q = (p.install p.opened (p.newSeat release p.opened)).countSession := by
  unfold openSession
  simp only [bind_eq_ok_iff, Registry.create_eq_ok_iff]
  constructor
  · rintro ⟨_, ⟨release, hrelease, rfl⟩, h⟩
    cases h
    exact ⟨release, hrelease, rfl, rfl⟩
  · rintro ⟨release, hrelease, rfl, rfl⟩
    exact ⟨_, ⟨release, hrelease, rfl⟩, rfl⟩

theorem rebind_eq_ok_iff {p q : Playground} {session : Nat} {version : String} :
    p.rebind session version = .ok q ↔
      ∃ place seat release, p.sessions.find? session = some place ∧
        p.seats[place]? = some seat ∧ Entries.find? p.registry version = some release ∧
        q = (p.install session (p.newSeat release seat.sink)).disposeAt place := by
  unfold rebind
  simp only [bind_eq_ok_iff, Registry.create_eq_ok_iff, Prod.exists, seat?_eq_ok_iff]
  constructor
  · rintro ⟨place, seat, ⟨hbound, hseat⟩, _, ⟨release, hrelease, rfl⟩, h⟩
    cases h
    exact ⟨place, seat, release, hbound, hseat, hrelease, rfl⟩
  · rintro ⟨place, seat, release, hbound, hseat, hrelease, rfl⟩
    exact ⟨place, seat, ⟨hbound, hseat⟩, _, ⟨release, hrelease, rfl⟩, rfl⟩

theorem abort_eq_ok_iff {p q : Playground} {session : Nat} :
    p.abort session = .ok q ↔
      ∃ place seat release, p.sessions.find? session = some place ∧
        p.seats[place]? = some seat ∧
        Entries.find? p.registry seat.runner.release.version = some release ∧
        q = (p.install session (p.newSeat release seat.sink)).disposeAt place := by
  unfold abort
  simp only [bind_eq_ok_iff, Prod.exists, seat?_eq_ok_iff, rebind_eq_ok_iff]
  constructor
  · rintro ⟨place, seat, ⟨hbound, hseat⟩, place', seat', release, hbound', hseat', hrelease, rfl⟩
    cases hbound.symm.trans hbound'
    cases hseat.symm.trans hseat'
    exact ⟨place, seat, release, hbound, hseat, hrelease, rfl⟩
  · rintro ⟨place, seat, release, hbound, hseat, hrelease, rfl⟩
    exact ⟨place, seat, ⟨hbound, hseat⟩, place, seat, release, hbound, hseat, hrelease, rfl⟩

theorem close_eq_ok_iff {p q : Playground} {session : Nat} :
    p.close session = .ok q ↔
      ∃ place seat, p.sessions.find? session = some place ∧ p.seats[place]? = some seat ∧
        q = (p.forget session).disposeAt place := by
  unfold close
  simp only [bind_eq_ok_iff, Prod.exists, seat?_eq_ok_iff]
  constructor
  · rintro ⟨place, seat, ⟨hbound, hseat⟩, h⟩
    cases h
    exact ⟨place, seat, hbound, hseat, rfl⟩
  · rintro ⟨place, seat, hbound, hseat, rfl⟩
    exact ⟨place, seat, ⟨hbound, hseat⟩, rfl⟩

/-- Every request takes one of the steps. -/
theorem answer_step (p : Playground) (request : Request) :
    p.Step request (p.answer request).2 (p.answer request).1 := by
  cases request with
  | opening version =>
      simp only [answer]
      split
      · next q session h =>
          obtain ⟨release, hrelease, rfl, rfl⟩ := openSession_eq_ok_iff.1 h
          exact .opening hrelease
      · exact .refused _ _
  | abort session =>
      simp only [answer]
      split
      · next q h =>
          obtain ⟨place, seat, release, hbound, hseat, hrelease, rfl⟩ := abort_eq_ok_iff.1 h
          exact .abort hbound hseat hrelease
      · exact .refused _ _
  | switch session version =>
      simp only [answer]
      split
      · next q h =>
          obtain ⟨place, seat, release, hbound, hseat, hrelease, rfl⟩ := rebind_eq_ok_iff.1 h
          exact .switch hbound hseat hrelease
      · exact .refused _ _
  | close session =>
      simp only [answer]
      split
      · next q h =>
          obtain ⟨place, seat, hbound, hseat, rfl⟩ := close_eq_ok_iff.1 h
          exact .close hbound hseat
      · exact .refused _ _
  | sessions => exact .sessions

/-! ## Runners in use -/

/-- A runner in use: it stands at the place, is not disposed, and writes to the sink of the
session. -/
def InUse (p : Playground) (session place : Nat) : Prop :=
  ∃ seat, p.seats[place]? = some seat ∧ seat.runner.disposed = false ∧ seat.sink = session

variable {p : Playground} {session place : Nat}

theorem InUse.lt (h : p.InUse session place) : place < p.seats.size := by
  obtain ⟨seat, hseat, -⟩ := h
  exact (Array.getElem?_eq_some_iff.1 hseat).1

theorem InUse.session_eq {other : Nat} (h : p.InUse session place) (h' : p.InUse other place) :
    session = other := by
  obtain ⟨seat, hseat, -, rfl⟩ := h
  obtain ⟨seat', hseat', -, rfl⟩ := h'
  rw [hseat] at hseat'
  exact congrArg Seat.sink (Option.some.inj hseat')

/-- A new runner is in use, beside those that were. -/
theorem inUse_install (release : Release) (sink : Nat) :
    (p.install sink (p.newSeat release sink)).InUse session place ↔
      (session = sink ∧ place = p.seats.size) ∨ p.InUse session place := by
  unfold InUse
  simp only [getElem?_install]
  by_cases h : place = p.seats.size
  · subst h
    simp [newSeat, eq_comm (a := session)]
  · simp [h]

/-- A runner that is disposed is no longer in use. -/
theorem inUse_disposeAt (disposed : Nat) :
    (p.disposeAt disposed).InUse session place ↔ place ≠ disposed ∧ p.InUse session place := by
  unfold InUse
  simp only [getElem?_disposeAt]
  by_cases h : disposed = place
  · subst h
    cases p.seats[disposed]? with
    | none => simp
    | some seat => simp [Runner.dispose]
  · simp [h, Ne.symm h]

/-! ## Sound playgrounds -/

/-- The names of the open sessions. -/
def names (p : Playground) : List Nat :=
  p.sessions.map Prod.fst

/-- The open sessions stand in opening order, and they are bound to the runners in use. -/
structure Sound (p : Playground) : Prop where
  ordered : p.names.Pairwise (· < ·)
  opened : ∀ session ∈ p.names, session < p.opened
  bound : ∀ session place, p.sessions.find? session = some place ↔ p.InUse session place

namespace Sound

theorem nodup (h : p.Sound) : (p.sessions.map Prod.fst).Nodup :=
  h.ordered.imp Nat.ne_of_lt

theorem create {registry : Registry} {version : Option String} {limits : Limits}
    (h : create registry version limits = .ok p) : p.Sound := by
  obtain ⟨name, rfl⟩ := create_ok h
  constructor
  · simp [names]
  · simp [names]
  · simp [InUse, Entries.find?]

theorem opened_notMem (h : p.Sound) : p.opened ∉ p.sessions.map Prod.fst :=
  fun hmem => Nat.lt_irrefl _ (h.opened _ hmem)

theorem names_opening (h : p.Sound) (release : Release) :
    (p.install p.opened (p.newSeat release p.opened)).countSession.names =
      p.names ++ [p.opened] := by
  change (p.sessions.put p.opened p.seats.size).map Prod.fst = _
  rw [Entries.keys_put, if_neg h.opened_notMem]
  rfl

/-- A new session stands behind the others, and its runner is in use. -/
theorem opening (h : p.Sound) (release : Release) :
    (p.install p.opened (p.newSeat release p.opened)).countSession.Sound := by
  constructor
  · rw [h.names_opening, List.pairwise_append]
    refine ⟨h.ordered, List.pairwise_singleton _ _, fun a ha b hb => ?_⟩
    rw [List.mem_singleton.1 hb]
    exact h.opened a ha
  · intro session hmem
    rw [h.names_opening, List.mem_append, List.mem_singleton] at hmem
    rcases hmem with hmem | rfl
    · exact Nat.lt_succ_of_lt (h.opened session hmem)
    · exact Nat.lt_succ_self _
  · intro session place
    refine Iff.trans ?_ (inUse_install release p.opened).symm
    change (p.sessions.put p.opened p.seats.size).find? session = some place ↔ _
    rw [Entries.find?_put, ← h.bound]
    by_cases hsession : p.opened = session
    · subst hsession
      simp [(Entries.find?_eq_none_iff _ _).2 h.opened_notMem, eq_comm]
    · simp [hsession, Ne.symm hsession]

theorem mem_names (h : p.Sound) (hbound : p.sessions.find? session = some place) :
    session ∈ p.sessions.map Prod.fst :=
  List.mem_map.2 ⟨_, (Entries.find?_eq_some_iff h.nodup session place).1 hbound, rfl⟩

theorem names_rebinding (h : p.Sound) (hbound : p.sessions.find? session = some place)
    (release : Release) :
    ((p.install session (p.newSeat release session)).disposeAt place).names = p.names := by
  change (p.sessions.put session p.seats.size).map Prod.fst = _
  rw [Entries.keys_put, if_pos (h.mem_names hbound)]
  rfl

/-- A session that is bound to a new runner keeps its place, and its old runner is disposed. -/
theorem rebinding (h : p.Sound) (hbound : p.sessions.find? session = some place)
    (release : Release) :
    ((p.install session (p.newSeat release session)).disposeAt place).Sound := by
  have huse := (h.bound session place).1 hbound
  constructor
  · rw [h.names_rebinding hbound]
    exact h.ordered
  · rw [h.names_rebinding hbound]
    exact h.opened
  · intro other at'
    rw [inUse_disposeAt, inUse_install]
    change (p.sessions.put session p.seats.size).find? other = some at' ↔ _
    rw [Entries.find?_put]
    by_cases hother : session = other
    · subst hother
      rw [if_pos rfl, ← h.bound, hbound]
      have := huse.lt
      simp only [Option.some.injEq, true_and]
      omega
    · rw [if_neg hother, ← h.bound]
      have : p.sessions.find? other = some at' → at' ≠ place := by
        rintro hat rfl
        exact hother (huse.session_eq ((h.bound other at').1 hat))
      tauto

theorem names_closing (p : Playground) (session place : Nat) :
    ((p.forget session).disposeAt place).names = p.names.erase session :=
  Entries.keys_erase p.sessions session

/-- A session that is closed is gone, and its runner is disposed. -/
theorem closing (h : p.Sound) (hbound : p.sessions.find? session = some place) :
    ((p.forget session).disposeAt place).Sound := by
  have huse := (h.bound session place).1 hbound
  constructor
  · rw [names_closing]
    exact h.ordered.sublist List.erase_sublist
  · intro other hmem
    rw [names_closing] at hmem
    exact h.opened other (List.mem_of_mem_erase hmem)
  · intro other at'
    rw [inUse_disposeAt]
    change (p.sessions.erase session).find? other = some at' ↔ at' ≠ place ∧ p.InUse other at'
    rw [Entries.find?_erase h.nodup, ← h.bound]
    by_cases hother : session = other
    · subst hother
      rw [if_pos rfl, hbound]
      simp only [reduceCtorEq, Option.some.injEq, false_iff]
      tauto
    · rw [if_neg hother]
      have : p.sessions.find? other = some at' → at' ≠ place := by
        rintro hat rfl
        exact hother (huse.session_eq ((h.bound other at').1 hat))
      tauto

/-- A session's runner writes to the session's own sink. -/
theorem sink_eq (h : p.Sound) (hbound : p.sessions.find? session = some place) {seat : Seat}
    (hseat : p.seats[place]? = some seat) : seat.sink = session := by
  obtain ⟨found, hfound, -, hsink⟩ := (h.bound session place).1 hbound
  rw [hseat] at hfound
  cases hfound
  exact hsink

theorem step (h : p.Sound) {request : Request} {reply : Reply} {q : Playground}
    (hstep : p.Step request reply q) : q.Sound := by
  cases hstep with
  | opening hrelease => exact h.opening _
  | abort hbound hseat hrelease =>
      rw [h.sink_eq hbound hseat]
      exact h.rebinding hbound _
  | switch hbound hseat hrelease =>
      rw [h.sink_eq hbound hseat]
      exact h.rebinding hbound _
  | close hbound hseat => exact h.closing hbound
  | sessions => exact h
  | refused request refusal => exact h

theorem answerAll (h : p.Sound) (requests : List Request) : (p.answerAll requests).1.Sound := by
  induction requests generalizing p with
  | nil => exact h
  | cons request rest ih => exact ih (h.step (p.answer_step request))

/-! ### The list of sessions -/

theorem listing_names (h : p.Sound) : p.listing.map Prod.fst = p.names := by
  unfold listing names
  rw [List.map_filterMap, ← List.filterMap_eq_map, Function.comp_def]
  apply List.filterMap_congr
  rintro ⟨session, place⟩ hmem
  have hbound := (Entries.find?_eq_some_iff h.nodup session place).2 hmem
  obtain ⟨seat, hseat, -⟩ := (h.bound session place).1 hbound
  simp [hseat]

theorem mem_listing (h : p.Sound) {version : String} :
    (session, version) ∈ p.listing ↔ ∃ place seat, p.sessions.find? session = some place ∧
      p.seats[place]? = some seat ∧ seat.runner.release.version = version := by
  unfold listing
  simp [List.mem_filterMap, ← Entries.find?_eq_some_iff h.nodup]

end Sound

/-! ## Requests and their replies -/

theorem answerAll_append (p : Playground) (before after : List Request) :
    p.answerAll (before ++ after) =
      (((p.answerAll before).1.answerAll after).1,
        (p.answerAll before).2 ++ ((p.answerAll before).1.answerAll after).2) := by
  induction before generalizing p with
  | nil => rfl
  | cons request rest ih => simp only [List.cons_append, answerAll, ih]

theorem length_replies (p : Playground) (requests : List Request) :
    (p.answerAll requests).2.length = requests.length := by
  induction requests generalizing p with
  | nil => rfl
  | cons request rest ih => simp [answerAll, ih]

/-- A refused request changes nothing. -/
theorem answer_of_refused {request : Request} {refusal : Refusal}
    (h : (p.answer request).2 = .refused refusal) : (p.answer request).1 = p := by
  have hstep := p.answer_step request
  rw [h] at hstep
  generalize (p.answer request).1 = q at hstep
  cases hstep
  rfl

/-- What stays the same, whatever is asked. -/
theorem answer_fixed (p : Playground) (request : Request) :
    (p.answer request).1.registry = p.registry ∧
      (p.answer request).1.defaultVersion = p.defaultVersion ∧
      (p.answer request).1.limits = p.limits := by
  have hstep := p.answer_step request
  generalize (p.answer request).1 = q, (p.answer request).2 = reply at hstep
  cases hstep <;> exact ⟨rfl, rfl, rfl⟩

theorem answerAll_fixed (p : Playground) (requests : List Request) :
    (p.answerAll requests).1.registry = p.registry ∧
      (p.answerAll requests).1.defaultVersion = p.defaultVersion ∧
      (p.answerAll requests).1.limits = p.limits := by
  induction requests generalizing p with
  | nil => exact ⟨rfl, rfl, rfl⟩
  | cons request rest ih =>
      obtain ⟨hregistry, hversion, hlimits⟩ := p.answer_fixed request
      obtain ⟨hregistry', hversion', hlimits'⟩ := ih (p.answer request).1
      exact ⟨hregistry'.trans hregistry, hversion'.trans hversion, hlimits'.trans hlimits⟩

/-! ### Seats -/

/-- A seat as it was, or with its runner disposed. -/
def Seat.Kept (seat later : Seat) : Prop :=
  later = seat ∨ later = { seat with runner := seat.runner.dispose }

/-- Every runner that was made stays at its place, where at most it is disposed. -/
def Keeps (p q : Playground) : Prop :=
  ∀ (place : Nat) (seat : Seat), p.seats[place]? = some seat →
    ∃ later, q.seats[place]? = some later ∧ Seat.Kept seat later

namespace Keeps

variable {q r : Playground}

theorem refl (p : Playground) : p.Keeps p :=
  fun _ seat hseat => ⟨seat, hseat, .inl rfl⟩

theorem trans (h : p.Keeps q) (h' : q.Keeps r) : p.Keeps r := by
  intro place seat hseat
  obtain ⟨later, hlater, hkept⟩ := h place seat hseat
  obtain ⟨last, hlast, hkept'⟩ := h' place later hlater
  use last, hlast
  unfold Seat.Kept at hkept hkept' ⊢
  rcases hkept with rfl | rfl
  · exact hkept'
  · rcases hkept' with rfl | rfl <;> exact .inr rfl

theorem size_lt (h : p.Keeps q) {place : Nat} (hplace : place < p.seats.size) :
    place < q.seats.size := by
  obtain ⟨later, hlater, -⟩ := h place _ (Array.getElem?_eq_getElem hplace)
  exact (Array.getElem?_eq_some_iff.1 hlater).1

theorem install (p : Playground) (session : Nat) (seat : Seat) :
    p.Keeps (p.install session seat) := by
  intro place found hfound
  have hplace : place ≠ p.seats.size := Nat.ne_of_lt (Array.getElem?_eq_some_iff.1 hfound).1
  rw [getElem?_install, if_neg hplace]
  exact ⟨found, hfound, .inl rfl⟩

theorem disposeAt (p : Playground) (disposed : Nat) : p.Keeps (p.disposeAt disposed) := by
  intro place found hfound
  rw [getElem?_disposeAt, hfound]
  by_cases h : disposed = place
  · rw [if_pos h]
    exact ⟨_, rfl, .inr rfl⟩
  · rw [if_neg h]
    exact ⟨_, rfl, .inl rfl⟩

theorem step {request : Request} {reply : Reply} (hstep : p.Step request reply q) : p.Keeps q := by
  cases hstep with
  | opening hrelease => exact install p p.opened _
  | abort | switch => exact (install p _ _).trans (disposeAt _ _)
  | close => exact disposeAt (p.forget _) _
  | sessions => exact refl p
  | refused => exact refl p

theorem answerAll (p : Playground) (requests : List Request) :
    p.Keeps (p.answerAll requests).1 := by
  induction requests generalizing p with
  | nil => exact refl p
  | cons request rest ih => exact (step (p.answer_step request)).trans (ih _)

end Keeps

/-! ### Histories -/

/-- Requests with their replies. -/
def history (p : Playground) (requests : List Request) : List (Request × Reply) :=
  requests.zip (p.answerAll requests).2

/-- The sessions that were opened, in opening order. -/
def openedIn (history : List (Request × Reply)) : List Nat :=
  history.filterMap fun
    | (_, .opened session) => some session
    | _ => none

/-- The sessions that were closed. -/
def closedIn (history : List (Request × Reply)) : List Nat :=
  history.filterMap fun
    | (.close session, .done) => some session
    | _ => none

/-- Whether a request had a runner made. -/
def makesRunner : Request × Reply → Bool
  | (.opening _, .opened _) | (.abort _, .done) | (.switch _ _, .done) => true
  | _ => false

theorem history_cons (p : Playground) (request : Request) (rest : List Request) :
    p.history (request :: rest) =
      (request, (p.answer request).2) :: (p.answer request).1.history rest := rfl

theorem history_append (p : Playground) (before after : List Request) :
    p.history (before ++ after) = p.history before ++ (p.answerAll before).1.history after := by
  unfold history
  rw [answerAll_append, List.zip_append (p.length_replies before).symm]

theorem openedIn_cons (event : Request × Reply) (history : List (Request × Reply)) :
    openedIn (event :: history) = openedIn [event] ++ openedIn history := by
  rw [← List.singleton_append, openedIn, List.filterMap_append]
  rfl

/-- A new session has the next number. -/
theorem opened_step {request : Request} {reply : Reply} {q : Playground}
    (h : p.Step request reply q) :
    List.range p.opened ++ openedIn [(request, reply)] = List.range q.opened := by
  cases h with
  | opening hrelease => exact List.range_succ.symm
  | refused request refusal => exact List.append_nil _
  | _ => exact List.append_nil _

/-- Sessions are numbered in the order in which they are opened. -/
theorem openedIn_history (p : Playground) (requests : List Request) :
    List.range p.opened ++ openedIn (p.history requests) =
      List.range (p.answerAll requests).1.opened := by
  induction requests generalizing p with
  | nil => exact List.append_nil _
  | cons request rest ih =>
      rw [history_cons, openedIn_cons, ← List.append_assoc, opened_step (p.answer_step request)]
      exact ih (p.answer request).1

/-- No session is opened twice. -/
theorem notMem_openedIn {requests : List Request} (h : session < p.opened) :
    session ∉ openedIn (p.history requests) := by
  have hnodup : (List.range p.opened ++ openedIn (p.history requests)).Nodup := by
    rw [p.openedIn_history requests]
    exact List.nodup_range
  exact List.disjoint_of_nodup_append hnodup (List.mem_range.2 h)

/-- The open sessions are those that were opened and not closed, in opening order. -/
theorem names_answerAll (h : p.Sound) (requests : List Request) :
    (p.answerAll requests).1.names =
      (p.names ++ openedIn (p.history requests)).filter
        (· ∉ closedIn (p.history requests)) := by
  induction requests generalizing p with
  | nil => simp [answerAll, history, openedIn, closedIn]
  | cons request rest ih =>
      have hstep := p.answer_step request
      have hrest := ih (h.step hstep)
      have hlater : ∀ session < (p.answer request).1.opened,
          session ∉ openedIn ((p.answer request).1.history rest) := fun _ => notMem_openedIn
      rw [history_cons]
      change ((p.answer request).1.answerAll rest).1.names = _
      generalize (p.answer request).1 = q, (p.answer request).2 = reply at hstep hrest hlater
      rw [hrest]
      cases hstep with
      | opening hrelease =>
          rw [h.names_opening, List.append_assoc]
          rfl
      | abort hbound hseat hrelease =>
          rw [h.sink_eq hbound hseat, h.names_rebinding hbound]
          rfl
      | switch hbound hseat hrelease =>
          rw [h.sink_eq hbound hseat, h.names_rebinding hbound]
          rfl
      | @close session place seat hbound hseat =>
          have hgone : ∀ other ∈ openedIn (((p.forget session).disposeAt place).history rest),
              other ≠ session := by
            rintro other hmem rfl
            exact hlater other (h.opened other (h.mem_names hbound)) hmem
          rw [Sound.names_closing, List.Nodup.erase_eq_filter (show p.names.Nodup from h.nodup)]
          change _ = (p.names ++ openedIn (((p.forget session).disposeAt place).history rest)).filter
            (· ∉ session :: closedIn (((p.forget session).disposeAt place).history rest))
          rw [List.filter_append, List.filter_append, List.filter_filter]
          congr 1
          · apply List.filter_congr
            intro other _
            by_cases hother : other = session <;> simp [hother]
          · apply List.filter_congr
            intro other hmem
            simp [hgone other hmem]
      | sessions => rfl
      | refused request refusal => cases request <;> rfl

/-- There are as many runners as were made. -/
theorem size_answerAll (p : Playground) (requests : List Request) :
    (p.answerAll requests).1.seats.size =
      p.seats.size + (p.history requests).countP makesRunner := by
  induction requests generalizing p with
  | nil => rfl
  | cons request rest ih =>
      have hstep := p.answer_step request
      have hrest := ih (p.answer request).1
      rw [history_cons, List.countP_cons]
      change ((p.answer request).1.answerAll rest).1.seats.size = _
      generalize (p.answer request).1 = q, (p.answer request).2 = reply at hstep hrest
      rw [hrest]
      cases hstep with
      | opening | abort | switch =>
          simp [makesRunner, install, countSession, disposeAt]
          omega
      | close => simp [makesRunner, forget, disposeAt]
      | sessions => simp [makesRunner]
      | refused request refusal => cases request <;> simp [makesRunner]

end Playground

end ScriptLab.Host
