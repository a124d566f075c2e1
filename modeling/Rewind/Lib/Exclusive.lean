/-
A resource that one party at a time may change.

A party acquires the resource, acts on it and releases it.  The acts between an acquisition and the
release are a session.  Where every move is legal, the run is as good as its sessions, one after
the other:

* `step`, `Legal` — the moves, and when the lock allows them;
* `sessions` — the sessions of a run, the latest first;
* **`serial_run`** — the resource is what the acts of the sessions make of it, one session after
  the other, and nobody but its party acts in a session;
* `refines_run` — a system whose steps are legal moves, over its whole runs.
-/
import Rewind.Lib.Runs

namespace Exclusive

variable {H S A : Type*}

/-- A resource, and the party that holds it. -/
structure Guarded (H S : Type*) where
  owner : Option H
  resource : S

/-- A move of a party. -/
inductive Move (H A : Type*) where
  | acquire (h : H)
  | act (h : H) (a : A)
  | release (h : H)

def step (effect : S → A → S) (g : Guarded H S) : Move H A → Guarded H S
  | .acquire h => { g with owner := some h }
  | .act _ a => { g with resource := effect g.resource a }
  | .release _ => { g with owner := none }

/-- The resource is free for who acquires it; only its holder acts on it and releases it. -/
def Legal (g : Guarded H S) : Move H A → Prop
  | .acquire _ => g.owner = none
  | .act h _ => g.owner = some h
  | .release h => g.owner = some h

/-- What one party does between an acquisition and the release. -/
structure Session (H A : Type*) where
  party : H
  acts : List A

/-- An acquisition begins a session; an act joins the latest one. -/
def record (sessions : List (Session H A)) : Move H A → List (Session H A)
  | .acquire h => ⟨h, []⟩ :: sessions
  | .act _ a =>
    match sessions with
    | [] => []
    | session :: earlier => { session with acts := session.acts ++ [a] } :: earlier
  | .release _ => sessions

/-- The sessions of a run, the latest first. -/
def sessions (moves : List (Move H A)) : List (Session H A) := Machine.run record [] moves

/-- The acts of the sessions, the earliest first, each with its party. -/
def performed (sessions : List (Session H A)) : List (H × A) :=
  sessions.reverse.flatMap fun session => session.acts.map fun a => (session.party, a)

/-- The act of a move. -/
def Move.act? : Move H A → Option (H × A)
  | .act h a => some (h, a)
  | _ => none

theorem performed_cons (session : Session H A) (earlier : List (Session H A)) :
    performed (session :: earlier)
      = performed earlier ++ session.acts.map fun a => (session.party, a) := by
  rw [performed, List.reverse_cons, List.flatMap_append, List.flatMap_singleton, ← performed]

/-- What holds of a resource and of the sessions that led to it. -/
structure Serial (effect : S → A → S) (start : S) (g : Guarded H S)
    (sessions : List (Session H A)) : Prop where
  resource : g.resource = Machine.run effect start ((performed sessions).map (·.2))
  holder : ∀ h, g.owner = some h → ∃ session earlier,
    sessions = session :: earlier ∧ session.party = h

variable {effect : S → A → S} {start : S}

theorem serial_init : Serial (H := H) effect start ⟨none, start⟩ [] :=
  ⟨rfl, fun _ h => absurd h (by simp)⟩

/-- A legal move is recorded in the session of its party. -/
theorem performed_record {g : Guarded H S} {ss : List (Session H A)}
    (hserial : Serial effect start g ss) {move : Move H A} (hlegal : Legal g move) :
    performed (record ss move) = performed ss ++ move.act?.toList := by
  cases move with
  | acquire h =>
    show performed (⟨h, []⟩ :: ss) = _ ++ []
    rw [performed_cons]
    rfl
  | act h a =>
    obtain ⟨session, earlier, rfl, rfl⟩ := hserial.holder h hlegal
    show performed ({ session with acts := session.acts ++ [a] } :: earlier) = _
    rw [performed_cons, performed_cons, List.map_append, ← List.append_assoc]
    rfl
  | release h => exact (List.append_nil _).symm

theorem serial_step {g : Guarded H S} {ss : List (Session H A)}
    (hserial : Serial effect start g ss) {move : Move H A} (hlegal : Legal g move) :
    Serial effect start (step effect g move) (record ss move) := by
  have hperformed := performed_record hserial hlegal
  cases move with
  | acquire h =>
    refine ⟨?_, fun h' hh => ⟨⟨h, []⟩, ss, rfl, Option.some.inj hh⟩⟩
    have hsame : performed (record ss (.acquire h)) = performed ss :=
      hperformed.trans (List.append_nil _)
    rw [hsame]
    exact hserial.resource
  | act h a =>
    refine ⟨?_, fun h' hh => ?_⟩
    · rw [hperformed, List.map_append, Machine.run_append, ← hserial.resource]
      rfl
    · obtain ⟨session, earlier, rfl, hparty⟩ := hserial.holder h' hh
      exact ⟨_, earlier, rfl, hparty⟩
  | release h => exact ⟨hserial.resource, fun h' hh => absurd hh (by simp [step])⟩

/-- Along legal moves the sessions account for the resource, and their acts are those of the moves,
in the same order and each under the party that made it. -/
theorem serial_run {g : Guarded H S} {ss : List (Session H A)}
    (hserial : Serial effect start g ss) {moves : List (Move H A)}
    (hlegal : Machine.Meets (step effect) Legal g moves) :
    Serial effect start (Machine.run (step effect) g moves) (Machine.run record ss moves)
      ∧ performed (Machine.run record ss moves) = performed ss ++ moves.filterMap Move.act? := by
  induction moves generalizing g ss with
  | nil => exact ⟨hserial, (List.append_nil _).symm⟩
  | cons move moves ih =>
    obtain ⟨hmove, hrest⟩ := hlegal
    obtain ⟨hend, hperformed⟩ := ih (serial_step hserial hmove) hrest
    refine ⟨hend, ?_⟩
    rw [Machine.run_cons, hperformed, performed_record hserial hmove, List.append_assoc]
    cases move <;> rfl

/-! ### Systems whose steps are legal moves -/

section Refinement

variable {W α : Type*} {next : W → α → W} {view : W → Guarded H S} {moves : W → α → List (Move H A)}

/-- Where every step of a system is some legal moves of what it shows, every run is. -/
theorem refines_run {I : W → Prop}
    (hstep : ∀ w a, I w → view (next w a) = Machine.run (step effect) (view w) (moves w a)
      ∧ Machine.Meets (step effect) Legal (view w) (moves w a))
    (hinv : ∀ w a, I w → I (next w a)) {w : W} (hw : I w) (as : List α) :
    view (Machine.run next w as)
        = Machine.run (step effect) (view w) (Machine.notes next moves w as)
      ∧ Machine.Meets (step effect) Legal (view w) (Machine.notes next moves w as) := by
  induction as generalizing w with
  | nil => exact ⟨rfl, trivial⟩
  | cons a as ih =>
    obtain ⟨hview, hlegal⟩ := hstep w a hw
    obtain ⟨hrun, hmeets⟩ := ih (hinv w a hw)
    rw [hview] at hrun hmeets
    rw [Machine.notes, Machine.run_append]
    exact ⟨hrun, Machine.meets_append.mpr ⟨hlegal, hmeets⟩⟩

end Refinement

end Exclusive
