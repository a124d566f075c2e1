/-
One writer at a time.

The calls of `Store::open` interleave as they like, and each may fail or die anywhere.  What they
commit is as good as one session after the other: a session applies migrations, recovers the runs of
its predecessors and then writes, and nobody else commits before its call is over.

* `Session.Lawful` — what a session consists of;
* `Accounted` — the lock, the database and the calls against the sessions so far;
* **`sessions_serial`** — every interleaving is one of sessions in sequence;
* **`active_runs_of_latest_writer`** — the runs that a recovery interrupts were created by a call
  that is over.
-/
import Rewind.Store.Opening
import Rewind.Store.RunRecords

namespace Rewind

namespace Opening

open Exclusive

variable {H : Type}

/-! ### Sessions -/

/-- The request of a statement. -/
def Statement.request? : Statement → Option Request
  | .request sent => some sent
  | .migrate _ _ => none

/-- What a session asked of the tables. -/
def requestsOf (session : Exclusive.Session H Statement) : List Request :=
  session.acts.filterMap Statement.request?

/-- The migrations of a session, at its own time. -/
def migrationActs (setting : Setting H) (h : H) (migrations : List Migration) : List Statement :=
  migrations.map fun migration => .migrate migration (setting.nowUnixMs h)

/-- A session on its way to an open store. -/
def Prepares (setting : Setting H) (session : Exclusive.Session H Statement) : Prop :=
  ∃ migrations, session.acts = migrationActs setting session.party migrations

/-- A session with an open store. -/
def Writes (setting : Setting H) (session : Exclusive.Session H Statement) : Prop :=
  ∃ (migrations : List Migration) (requests : List Request),
    session.acts = migrationActs setting session.party migrations
      ++ .request (recoverRequest (setting.nowUnixMs session.party))
        :: requests.map Statement.request

/-- A call never commits anything but migrations, a recovery and what its store is asked for. -/
def Lawful (setting : Setting H) (session : Exclusive.Session H Statement) : Prop :=
  Prepares setting session ∨ Writes setting session

/-- The session of a call that stands where it does. -/
def Stands (setting : Setting H) (session : Exclusive.Session H Statement) : Standing → Prop
  | .outside => False
  | .preparing => Prepares setting session
  | .writing => Writes setting session
  | .ended => Lawful setting session

variable {setting : Setting H}

theorem lawful_of_stands {session : Exclusive.Session H Statement} {standing : Standing}
    (h : Stands setting session standing) : Lawful setting session := by
  cases standing with
  | outside => exact h.elim
  | preparing => exact Or.inl h
  | writing => exact Or.inr h
  | ended => exact h

/-! ### The account of a run -/

/-- The lock, the database and the calls against the sessions so far, the latest first. -/
structure Accounted (setting : Setting H) (start : MetadataFile) (w : World H)
    (ss : List (Exclusive.Session H Statement)) : Prop where
  coherent : w.Coherent
  serial : Serial (effect setting.codecs) start w.view ss
  stands : ∀ session ∈ ss, Stands setting session (w.standing session.party)
  ended : ∀ session ∈ ss.tail, w.standing session.party = .ended

theorem accounted_initial (node : LockNode H) (metadata : Option MetadataFile) :
    Accounted setting (metadata.getD .new) (World.initial node metadata) [] where
  coherent := coherent_initial node metadata
  serial := by
    have hview : (World.initial node metadata).view = ⟨none, metadata.getD .new⟩ := by
      simp [World.view, World.initial, World.file]
    rw [hview]
    exact serial_init
  stands := fun _ h => absurd h List.not_mem_nil
  ended := fun _ h => absurd h List.not_mem_nil

variable {start : MetadataFile} {w w' : World H} {ss : List (Exclusive.Session H Statement)}

/-- No session is that of a call that has not taken the lock. -/
theorem Accounted.party_ne (hacc : Accounted setting start w ss) {h : H}
    (houtside : w.standing h = .outside) {session : Exclusive.Session H Statement}
    (hmem : session ∈ ss) :
    session.party ≠ h := by
  rintro rfl
  have hstands := hacc.stands session hmem
  rw [houtside] at hstands
  exact hstands

/-- Once the lock is free every session is over. -/
theorem Accounted.all_ended (hacc : Accounted setting start w ss) (hfree : w.node.owner = none) :
    ∀ session ∈ ss, w.standing session.party = .ended := by
  intro session hmem
  have hnot : (w.standing session.party).holds ≠ true := by
    intro hholds
    have howner := (hacc.coherent session.party).mpr hholds
    rw [hfree] at howner
    exact absurd howner (by simp)
  cases hstanding : w.standing session.party with
  | outside => exact absurd rfl (hacc.party_ne hstanding hmem)
  | preparing => exact absurd rfl (hstanding ▸ hnot)
  | writing => exact absurd rfl (hstanding ▸ hnot)
  | ended => rfl

theorem standing_of_others {h : H} (others : ∀ h', h' ≠ h → w'.phase h' = w.phase h') {h' : H}
    (hne : h' ≠ h) : w'.standing h' = w.standing h' := congrArg Phase.standing (others h' hne)

/-- A turn of the holder that adds to its session. -/
theorem Accounted.act (hacc : Accounted setting start w ss) {h : H}
    (hholds : (w.standing h).holds = true) (others : ∀ h', h' ≠ h → w'.phase h' = w.phase h')
    {statement : Statement}
    (hserial : Serial (effect setting.codecs) start w'.view (record ss (.act h statement)))
    (hcoherent : w'.Coherent)
    (hstands : ∀ session : Exclusive.Session H Statement, session.party = h →
      Stands setting session (w.standing h) →
      Stands setting { session with acts := session.acts ++ [statement] } (w'.standing h)) :
    Accounted setting start w' (record ss (.act h statement)) := by
  obtain ⟨session, earlier, rfl, rfl⟩ :=
    hacc.serial.holder h ((hacc.coherent h).mpr hholds)
  have hearlier : ∀ other ∈ earlier, other.party ≠ session.party := by
    intro other hother heq
    rw [← heq, hacc.ended other hother] at hholds
    exact absurd hholds (by decide)
  refine ⟨hcoherent, hserial, fun other hother => ?_, fun other hother => ?_⟩
  · rcases List.mem_cons.mp hother with rfl | hold
    · exact hstands session rfl (hacc.stands session List.mem_cons_self)
    · rw [standing_of_others others (hearlier other hold)]
      exact hacc.stands other (List.mem_cons_of_mem _ hold)
  · have hold : other ∈ earlier := hother
    rw [standing_of_others others (hearlier other hold)]
    exact hacc.ended other hold

/-- A turn of any call. -/
theorem Accounted.turn [DecidableEq H] (hacc : Accounted setting start w ss)
    {moves : List (Move H Statement)} (hcase : TurnCase setting w w' moves) :
    Accounted setting start w' (Machine.run record ss moves) := by
  have hcoherent := hcase.coherent hacc.coherent
  obtain ⟨hview, hlegal⟩ := hcase.refines hacc.coherent
  have hserial := (serial_run hacc.serial hlegal).1
  rw [← hview] at hserial
  cases hcase with
  | quiet h others own pending view =>
    refine ⟨hcoherent, hserial, fun session hmem => ?_, fun session hmem => ?_⟩
    · by_cases hparty : session.party = h
      · have hstands := hacc.stands session hmem
        rcases own with hsame | ⟨houtside, -⟩
        · rw [hparty, hsame, ← hparty]
          exact hstands
        · exact absurd hparty (hacc.party_ne houtside hmem)
      · rw [standing_of_others others hparty]
        exact hacc.stands session hmem
    · have hover := hacc.ended session hmem
      by_cases hparty : session.party = h
      · rcases own with hsame | ⟨houtside, -⟩
        · rw [hparty, hsame, ← hparty]
          exact hover
        · exact absurd hparty (hacc.party_ne houtside (List.mem_of_mem_tail hmem))
      · rw [standing_of_others others hparty]
        exact hover
  | acquire h others free before after pending view =>
    have hold : ∀ session ∈ ss, w'.standing session.party = .ended := by
      intro session hmem
      rw [standing_of_others others (hacc.party_ne before hmem)]
      exact hacc.all_ended free session hmem
    refine ⟨hcoherent, hserial, fun session hmem => ?_, hold⟩
    rcases List.mem_cons.mp hmem with rfl | hmem
    · show Stands setting _ (w'.standing h)
      rw [after]
      exact ⟨[], rfl⟩
    · rw [hold session hmem]
      exact lawful_of_stands (hacc.stands session hmem)
  | release h others held after view =>
    refine ⟨hcoherent, hserial, fun session hmem => ?_, fun session hmem => ?_⟩
    · by_cases hparty : session.party = h
      · rw [hparty, after]
        exact lawful_of_stands (hacc.stands session hmem)
      · rw [standing_of_others others hparty]
        exact hacc.stands session hmem
    · by_cases hparty : session.party = h
      · rw [hparty, after]
      · rw [standing_of_others others hparty]
        exact hacc.ended session hmem
  | migrate h migration rest others before after view =>
    have hbefore : w.standing h = .preparing := congrArg Phase.standing before
    have hafter : w'.standing h = .preparing := congrArg Phase.standing after
    refine hacc.act (by rw [hbefore]; rfl) others hserial hcoherent fun session hparty hstands => ?_
    rw [hbefore] at hstands
    obtain ⟨migrations, hacts⟩ := hstands
    rw [hafter]
    refine ⟨migrations ++ [migration], ?_⟩
    show session.acts ++ _ = migrationActs setting session.party _
    rw [hacts, ← hparty, migrationActs, migrationActs, List.map_append]
    rfl
  | recover h others before after view =>
    refine hacc.act (by rw [before]; rfl) others hserial hcoherent fun session hparty hstands => ?_
    rw [before] at hstands
    obtain ⟨migrations, hacts⟩ := hstands
    rw [after]
    refine ⟨migrations, [], ?_⟩
    show session.acts ++ _ = migrationActs setting session.party _ ++ _
    rw [hacts, hparty]
    rfl
  | request h request others before after view =>
    refine hacc.act (by rw [before]; rfl) others hserial hcoherent fun session hparty hstands => ?_
    rw [before] at hstands
    obtain ⟨migrations, requests, hacts⟩ := hstands
    rw [after]
    refine ⟨migrations, requests ++ [request], ?_⟩
    show session.acts ++ _ = migrationActs setting session.party _ ++ _
    rw [hacts, List.append_assoc, List.map_append]
    rfl

/-- The sessions of a run, the latest first. -/
def history [DecidableEq H] (setting : Setting H) (w : World H) (actions : List (Action H)) :
    List (Exclusive.Session H Statement) :=
  sessions (Machine.notes (World.next setting) (World.moves setting) w actions)

theorem accounted_run [DecidableEq H] (node : LockNode H) (metadata : Option MetadataFile)
    (actions : List (Action H)) :
    Accounted setting (metadata.getD .new)
      (Machine.run (World.next setting) (World.initial node metadata) actions)
      (history setting (World.initial node metadata) actions) := by
  have hstep : ∀ (w : World H) (moves : List (Move H Statement)) (action : Action H), True →
      Accounted setting (metadata.getD .new) w (sessions moves) →
      Accounted setting (metadata.getD .new) (w.next setting action)
        (sessions (moves ++ w.moves setting action)) := by
    intro w moves action _ hacc
    rw [sessions, Machine.run_append]
    exact hacc.turn (case_turn hacc.coherent action)
  have hinit : Accounted setting (metadata.getD .new) (World.initial node metadata)
      (sessions []) := accounted_initial node metadata
  exact Machine.run_notes_invariant hstep (fun _ _ => trivial) hinit

/-! ### The database of a run -/

theorem db_of_apply {migration : Migration} {nowUnixMs : Int64} {file file' : MetadataFile}
    (h : migration.apply nowUnixMs file = .ok file') : file'.db = file.db := by
  obtain ⟨schema, -, h⟩ := Except.bind_eq_ok_iff.mp h
  obtain ⟨-, h⟩ := ensure_bind_eq_ok_iff.mp h
  rw [← Except.ok.inj h]

/-- Migrations touch no row, so that the rows are what the requests make of them. -/
theorem db_run (codecs : Codecs) (file : MetadataFile) (statements : List Statement) :
    (Machine.run (effect codecs) file statements).db
      = Machine.run (step codecs) file.db (statements.filterMap Statement.request?) := by
  induction statements generalizing file with
  | nil => rfl
  | cons statement statements ih =>
    rw [Machine.run_cons, ih]
    cases statement with
    | request sent => rfl
    | migrate migration nowUnixMs =>
      have hsame : (effect codecs file (.migrate migration nowUnixMs)).db = file.db := by
        rw [effect]
        rcases happly : migration.apply nowUnixMs file with error | file'
        · rfl
        · exact db_of_apply happly
      rw [hsame]
      rfl

/-- The requests of the sessions, the earliest first. -/
theorem requests_performed (ss : List (Exclusive.Session H Statement)) :
    ((performed ss).map (·.2)).filterMap Statement.request? = ss.reverse.flatMap requestsOf := by
  induction ss with
  | nil => rfl
  | cons session earlier ih =>
    have hacts : (session.acts.map fun a => (session.party, a)).map (·.2) = session.acts := by
      rw [List.map_map]
      exact List.map_id _
    rw [performed_cons, List.map_append, List.filterMap_append, ih, hacts, List.reverse_cons,
      List.flatMap_append, List.flatMap_singleton]
    rfl

theorem requests_migrationActs (setting : Setting H) (h : H) (migrations : List Migration) :
    (migrationActs setting h migrations).filterMap Statement.request? = [] := by
  rw [migrationActs, List.filterMap_map, List.filterMap_eq_nil_iff]
  intro migration _
  rfl

theorem requestsOf_prepares {session : Exclusive.Session H Statement}
    (h : Prepares setting session) : requestsOf session = [] := by
  obtain ⟨migrations, hacts⟩ := h
  rw [requestsOf, hacts, requests_migrationActs]

/-- An open store has begun with its recovery. -/
theorem requestsOf_writes {session : Exclusive.Session H Statement} (h : Writes setting session) :
    ∃ requests, requestsOf session
      = recoverRequest (setting.nowUnixMs session.party) :: requests := by
  obtain ⟨migrations, requests, hacts⟩ := h
  refine ⟨(requests.map Statement.request).filterMap Statement.request?, ?_⟩
  rw [requestsOf, hacts, List.filterMap_append, requests_migrationActs, List.nil_append]
  rfl

/-- The rows of a run are what the requests of its sessions make of them. -/
theorem Accounted.file_db {start : MetadataFile} {w : World H}
    {ss : List (Exclusive.Session H Statement)} (hacc : Accounted setting start w ss) :
    w.file.db = Machine.run (step setting.codecs) start.db (ss.reverse.flatMap requestsOf) := by
  have hresource : w.file = Machine.run (effect setting.codecs) start
      ((performed ss).map (·.2)) := hacc.serial.resource
  rw [hresource, db_run, requests_performed]

/-- A new store stays one that a recovery can deal with. -/
theorem recoverable_run [DecidableEq H] (node : LockNode H) (actions : List (Action H)) :
    (Machine.run (World.next setting) (World.initial node none) actions).file.db.Recoverable := by
  rw [(accounted_run node none actions).file_db]
  exact (statements_keepRecoverable setting.codecs).run Db.empty _ recoverable_empty

/-- **One writer at a time.**  In every interleaving of opens, inspections, failures and deaths, at
most one call stands between taking and dropping the lock.  The database is that of the sessions one
after the other, each made of migrations and then a recovery and requests, all by one call; a call
that holds the lock has the latest session, and every earlier session is that of a call that is
over. -/
theorem sessions_serial [DecidableEq H] (setting : Setting H) (node : LockNode H)
    (metadata : Option MetadataFile) (actions : List (Action H)) :
    let start := World.initial node metadata
    let w := Machine.run (World.next setting) start actions
    let ss := history setting start actions
    (∀ h h', (w.standing h).holds = true → (w.standing h').holds = true → h = h')
      ∧ performed ss = (Machine.notes (World.next setting) (World.moves setting) start
          actions).filterMap Move.act?
      ∧ w.file = Machine.run (effect setting.codecs) start.file ((performed ss).map (·.2))
      ∧ w.file.db = Machine.run (step setting.codecs) start.file.db (ss.reverse.flatMap requestsOf)
      ∧ (∀ session ∈ ss, Lawful setting session)
      ∧ (∀ h, (w.standing h).holds = true → ∃ session earlier, ss = session :: earlier
          ∧ session.party = h ∧ Stands setting session (w.standing h))
      ∧ ∀ session ∈ ss.tail, w.standing session.party = .ended := by
  intro start w ss
  have hacc : Accounted setting start.file w ss := accounted_run node metadata actions
  have hstart : start.view = ⟨none, start.file⟩ := by
    show (⟨(node.setOwner none).owner, start.file⟩ : Guarded H MetadataFile) = _
    rw [owner_setOwner_none]
  have hrefines : ∀ (w : World H) (action : Action H), w.Coherent →
      (w.next setting action).view
          = Machine.run (Exclusive.step (effect setting.codecs)) w.view (w.moves setting action)
        ∧ Machine.Meets (Exclusive.step (effect setting.codecs)) Legal w.view
            (w.moves setting action) := fun w action hw => (case_turn hw action).refines hw
  have hlegal := (refines_run hrefines (fun w action hw => (case_turn hw action).coherent hw)
    (coherent_initial node metadata) actions).2
  rw [hstart] at hlegal
  refine ⟨fun h h' => hacc.coherent.exclusive, (serial_run serial_init hlegal).2,
    hacc.serial.resource, hacc.file_db,
    fun session hmem => lawful_of_stands (hacc.stands session hmem), fun h hholds => ?_, hacc.ended⟩
  obtain ⟨session, earlier, hss, rfl⟩ := hacc.serial.holder h ((hacc.coherent h).mpr hholds)
  exact ⟨session, earlier, hss, rfl, hacc.stands session (hss ▸ List.mem_cons_self)⟩

/-! ### The runs that a recovery interrupts -/

section ActiveRuns

variable {codecs : Codecs} {db : Db} {id : RunId}

/-- The request creates the run in this database. -/
def Creates (codecs : Codecs) (id : RunId) (db : Db) (request : Request) : Prop :=
  request.fails = false ∧ ∃ run, request.op = .createRun run ∧ run.id = id
    ∧ createRun db run = .ok (step codecs db request)

/-- One of the requests, carried out one after the other, creates the run. -/
def CreatesIn (codecs : Codecs) (id : RunId) (db : Db) (requests : List Request) : Prop :=
  ∃ done request rest, requests = done ++ request :: rest
    ∧ Creates codecs id (Machine.run (step codecs) db done) request

theorem CreatesIn.cons {request : Request} {requests : List Request}
    (h : CreatesIn codecs id (step codecs db request) requests) :
    CreatesIn codecs id db (request :: requests) := by
  obtain ⟨done, created, rest, rfl, hcreates⟩ := h
  exact ⟨request :: done, created, rest, rfl, hcreates⟩

/-- A run is active because it was or because it is new. -/
theorem active_step (hdb : db.Recoverable) {request : Request}
    (h : id ∈ activeRunIds (step codecs db request)) :
    id ∈ activeRunIds db ∨ Creates codecs id db request := by
  have hdb' : (step codecs db request).Recoverable :=
    (statements_keepRecoverable codecs).step db request hdb
  rcases step_cases codecs db request with hsame | ⟨hfails, hexec⟩
  · rw [hsame] at h
    exact Or.inl h
  · obtain ⟨row, hrow, hid, hactive⟩ := mem_activeRunIds.mp h
    rcases exec_records hexec with ⟨run, hop, hcreate⟩ | ⟨-, -, p, f, hruns, hf, -⟩
    · rw [(createRun_records hcreate).2.1] at hrow
      rcases List.mem_append.mp hrow with hold | hnew
      · exact Or.inl (mem_activeRunIds.mpr ⟨row, hold, hid, hactive⟩)
      · obtain rfl := List.mem_singleton.mp hnew
        exact Or.inr ⟨hfails, run, hop, hid, hcreate⟩
    · have hmem := hrow
      rw [hruns] at hmem
      obtain ⟨old, hold, hupdated⟩ := List.mem_map.mp hmem
      have hsame : old.id = id := by
        rw [← hid, ← hupdated]
        cases p old
        · rfl
        · exact (hf old).1.symm
      cases hopen : isActive old
      · -- a terminal run stays terminal
        have hterminal : db.isTerminal id := by
          refine ⟨old, hsame ▸ Table.find_of_mem _ hdb.readable.ids hold, ?_⟩
          rwa [isActive, Bool.not_eq_false'] at hopen
        have hext := ((statements_keepTimelines codecs).exec hexec hdb.wellFormed).2
        obtain ⟨row', hfind, hended⟩ := (hext.terminal id hterminal).1
        have hrow' := Table.find_of_mem _ hdb'.readable.ids hrow
        rw [hid] at hrow'
        obtain rfl := Option.some.inj (hrow'.symm.trans hfind)
        rw [isActive, hended] at hactive
        exact absurd hactive (by decide)
      · exact Or.inl (mem_activeRunIds.mpr ⟨old, hold, hsame, hopen⟩)

theorem active_run (hdb : db.Recoverable) {requests : List Request}
    (h : id ∈ activeRunIds (Machine.run (step codecs) db requests)) :
    id ∈ activeRunIds db ∨ CreatesIn codecs id db requests := by
  induction requests generalizing db with
  | nil => exact Or.inl h
  | cons request requests ih =>
    rcases ih ((statements_keepRecoverable codecs).step db request hdb) h with hactive | hcreated
    · rcases active_step hdb hactive with hold | hnew
      · exact Or.inl hold
      · exact Or.inr ⟨[], request, requests, rfl, hnew⟩
    · exact Or.inr hcreated.cons

/-- A recovery leaves no run active. -/
theorem active_recovered (hdb : db.Recoverable) (nowUnixMs : Int64) :
    activeRunIds (step codecs db (recoverRequest nowUnixMs)) = [] := by
  have hexec : Op.exec codecs db (.markInterruptedRuns ⟨nowUnixMs⟩) = .ok { db with
      runs := Table.update isActive (interruptedRow db ⟨nowUnixMs⟩) db.runs
      warnings := db.warnings ++ (activeRunIds db).map (recoveryWarning db ⟨nowUnixMs⟩) } := by
    rw [Op.exec, markInterruptedRuns_eq hdb.readable]
    rfl
  have hstep : step codecs db (recoverRequest nowUnixMs) = { db with
      runs := Table.update isActive (interruptedRow db ⟨nowUnixMs⟩) db.runs
      warnings := db.warnings ++ (activeRunIds db).map (recoveryWarning db ⟨nowUnixMs⟩) } :=
    step_of_exec hexec
  rw [hstep, List.eq_nil_iff_forall_not_mem]
  intro id hid
  obtain ⟨row, hrow, -, hactive⟩ := mem_activeRunIds.mp hid
  obtain ⟨old, -, rfl⟩ := List.mem_map.mp hrow
  cases hopen : isActive old
  · rw [hopen] at hactive
    exact absurd (hopen.symm.trans hactive) (by decide)
  · rw [hopen] at hactive
    exact absurd hactive (by simp)

end ActiveRuns

/-- A session that got as far as its recovery. -/
def wrote (session : Exclusive.Session H Statement) : Bool := !(requestsOf session).isEmpty

/-- The run is created in a session, whose requests come to the database that the sessions before it
have left; and no session behind it got as far as its recovery. -/
def CreatedLast (codecs : Codecs) (id : RunId) (ss : List (Exclusive.Session H Statement))
    (session : Exclusive.Session H Statement) : Prop :=
  ∃ later earlier, ss = later ++ session :: earlier ∧ (∀ s ∈ later, wrote s = false)
    ∧ CreatesIn codecs id
      (Machine.run (step codecs) Db.empty (earlier.reverse.flatMap requestsOf))
      (requestsOf session)

/-- The active runs come from the latest session that got as far as its recovery. -/
theorem active_of_sessions {codecs : Codecs} {ss : List (Exclusive.Session H Statement)}
    (hlawful : ∀ session ∈ ss, Lawful setting session) {id : RunId}
    (h : id ∈ activeRunIds (Machine.run (step codecs) Db.empty (ss.reverse.flatMap requestsOf))) :
    ∃ session, ss.find? wrote = some session ∧ CreatedLast codecs id ss session := by
  induction ss with
  | nil => exact absurd h (by simp [activeRunIds, Db.empty])
  | cons session earlier ih =>
    obtain ⟨hsession, hearlier⟩ := List.forall_mem_cons.mp hlawful
    rw [List.reverse_cons, List.flatMap_append, List.flatMap_singleton, Machine.run_append] at h
    rcases hsession with hprepares | hwrites
    · have hnone := requestsOf_prepares hprepares
      rw [hnone] at h
      obtain ⟨latest, hfind, later, before, hss, hlater, hcreated⟩ := ih hearlier h
      have hquiet : wrote session = false := by simp [wrote, hnone]
      refine ⟨latest, ?_, session :: later, before, by rw [hss]; rfl, ?_, hcreated⟩
      · rw [List.find?_cons_of_neg (by simp [hquiet]), hfind]
      · exact List.forall_mem_cons.mpr ⟨hquiet, hlater⟩
    · obtain ⟨requests, hrequests⟩ := requestsOf_writes hwrites
      refine ⟨session, List.find?_cons_of_pos (by simp [wrote, hrequests]), [], earlier, rfl,
        List.forall_mem_nil _, ?_⟩
      have hbefore : (Machine.run (step codecs) Db.empty
          (earlier.reverse.flatMap requestsOf)).Recoverable :=
        (statements_keepRecoverable codecs).run Db.empty _ recoverable_empty
      rw [hrequests, Machine.run_cons] at h
      rcases active_run ((statements_keepRecoverable codecs).step _ _ hbefore) h
        with hactive | hcreated
      · rw [active_recovered hbefore] at hactive
        exact absurd hactive List.not_mem_nil
      · rw [hrequests]
        exact hcreated.cons

/-- **Orphans.**  In every interleaving on a new store the active runs were all created in one
session, the latest that got as far as its recovery.  When a call is about to recover, the call of
that session is over: no recovery interrupts a run whose recorder is still there. -/
theorem active_runs_of_latest_writer [DecidableEq H] (setting : Setting H) (node : LockNode H)
    (actions : List (Action H)) :
    let start : World H := World.initial node none
    let w := Machine.run (World.next setting) start actions
    let ss := history setting start actions
    (∀ id ∈ activeRunIds w.file.db, ∃ session, ss.find? wrote = some session
        ∧ CreatedLast setting.codecs id ss session)
      ∧ ∀ h session, w.phase h = .recovering → ss.find? wrote = some session →
          w.standing session.party = .ended := by
  intro start w ss
  have hacc : Accounted setting start.file w ss := accounted_run node none actions
  have hlawful : ∀ session ∈ ss, Lawful setting session :=
    fun session hmem => lawful_of_stands (hacc.stands session hmem)
  have hdb : w.file.db = Machine.run (step setting.codecs) Db.empty
      (ss.reverse.flatMap requestsOf) := hacc.file_db
  refine ⟨fun id hid => active_of_sessions hlawful (hdb ▸ hid), fun h session hphase hfind => ?_⟩
  have hstanding : w.standing h = .preparing := by rw [World.standing, hphase]; rfl
  have howner : w.node.owner = some h := (hacc.coherent h).mpr (by rw [hstanding]; rfl)
  obtain ⟨current, earlier, hss, hparty⟩ := hacc.serial.holder h howner
  -- the session of the recovering call has asked for nothing yet
  have hstands := hacc.stands current (hss ▸ List.mem_cons_self)
  rw [hparty, hstanding] at hstands
  have hnone := requestsOf_prepares hstands
  rw [hss, List.find?_cons_of_neg (by simp [wrote, hnone])] at hfind
  have htail : session ∈ ss.tail := by
    rw [hss]
    exact List.mem_of_find?_eq_some hfind
  exact hacc.ended session htail

end Opening

end Rewind
