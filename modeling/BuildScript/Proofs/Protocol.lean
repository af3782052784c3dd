import BuildScript.Proofs.Rerun

/-!
# The order of calls on a run

A run is scanned once and then visited once, whatever is called in between. All that a call can do
is listed as moves. What holds in every history of calls follows from what one move does.
-/

namespace BuildScript

inductive RunCall where
  | scan (files : List SourceFile) (schedule : Schedule)
  | visit (files : List SourceFile) (schedule : Schedule)
  | cancel

def RunCall.needs? : RunCall → Option RunState
  | scan _ _ => some .initialized
  | visit _ _ => some .scanned
  | cancel => none

inductive RunReply where
  | scanned
  | visited (files : List SourceFile)
  | noted
  | failed (e : Error)

namespace RunReply

def isScanned : RunReply → Bool
  | scanned => true
  | _ => false

def isVisited : RunReply → Bool
  | visited _ => true
  | _ => false

end RunReply

structure Session where
  run : Run
  ctx : Context

/-- A call and its reply, with the session on either side. -/
structure RunEvent where
  before : Session
  call : RunCall
  reply : RunReply
  after : Session

namespace Session

def start (ctx : Context) : Session := ⟨.start, ctx⟩

def call (recipe : Recipe) (s : Session) : RunCall → RunReply × Session
  | .scan files schedule =>
    match s.run.scan recipe files s.ctx schedule with
    | (.ok (), run) => (.scanned, { s with run })
    | (.error e, run) => (.failed e, { s with run })
  | .visit files schedule =>
    match s.run.visit recipe files s.ctx schedule with
    | (.ok files, run, ctx) => (.visited files, ⟨run, ctx⟩)
    | (.error e, run, ctx) => (.failed e, ⟨run, ctx⟩)
  | .cancel => (.noted, { s with ctx := s.ctx.cancel })

def event (recipe : Recipe) (s : Session) (c : RunCall) : RunEvent :=
  ⟨s, c, (s.call recipe c).1, (s.call recipe c).2⟩

def events (recipe : Recipe) : Session → List RunCall → List RunEvent
  | _, [] => []
  | s, c :: calls => s.event recipe c :: (s.call recipe c).2.events recipe calls

def after (recipe : Recipe) (s : Session) (calls : List RunCall) : Session :=
  calls.foldl (fun s c => (s.call recipe c).2) s

end Session

inductive RunMove (recipe : Recipe) : RunEvent → Prop
  | refusedScan {s : Session} {files : List SourceFile} {schedule : Schedule}
      (state : s.run.state ≠ .initialized) :
      RunMove recipe ⟨s, .scan files schedule, .failed (s.run.outOfTurn .initialized), s⟩
  | cancelledScan {s : Session} {files : List SourceFile} {schedule : Schedule}
      (state : s.run.state = .initialized) (cancelled : s.ctx.cancelled = true) :
      RunMove recipe ⟨s, .scan files schedule, .failed .cancelled,
        ⟨⟨.cancelled, s.run.scanned⟩, s.ctx⟩⟩
  | scan {s : Session} {files : List SourceFile} {schedule : Schedule}
      (state : s.run.state = .initialized) (cancelled : s.ctx.cancelled = false) :
      RunMove recipe ⟨s, .scan files schedule, .scanned,
        ⟨⟨.scanned, some (recipe.scan files)⟩, s.ctx⟩⟩
  | refusedVisit {s : Session} {files : List SourceFile} {schedule : Schedule}
      (state : ∀ facts, s.run ≠ ⟨.scanned, some facts⟩) :
      RunMove recipe ⟨s, .visit files schedule, .failed (s.run.outOfTurn .scanned), s⟩
  | cancelledVisit {ctx : Context} {facts : Scanned} {files : List SourceFile} {schedule : Schedule}
      (cancelled : ctx.cancelled = true) :
      RunMove recipe ⟨⟨⟨.scanned, some facts⟩, ctx⟩, .visit files schedule, .failed .cancelled,
        ⟨⟨.cancelled, some facts⟩, ctx⟩⟩
  | visit {ctx : Context} {facts : Scanned} {files : List SourceFile} {schedule : Schedule} :
      RunMove recipe ⟨⟨⟨.scanned, some facts⟩, ctx⟩, .visit files schedule,
        .visited (files.map (recipe.visited facts)), ⟨⟨.done, some facts⟩,
        { ctx with warnings := ctx.warnings ++
          Run.noted schedule (files.map (recipe.warned facts)) }⟩⟩
  | cancel {s : Session} : RunMove recipe ⟨s, .cancel, .noted, { s with ctx := s.ctx.cancel }⟩

/-- What is left of a run between calls. -/
inductive Run.Rests : Run → Prop
  | initialized : Rests ⟨.initialized, none⟩
  | scanned (facts : Scanned) : Rests ⟨.scanned, some facts⟩
  | done (facts : Scanned) : Rests ⟨.done, some facts⟩
  | cancelled (known : Option Scanned) : Rests ⟨.cancelled, known⟩

namespace Session

theorem move_scan (recipe : Recipe) (s : Session) (files : List SourceFile) (schedule : Schedule) :
    RunMove recipe (s.event recipe (.scan files schedule)) := by
  by_cases hstate : s.run.state = .initialized
  · cases hcancelled : s.ctx.cancelled with
    | true =>
      simp only [event, call, Run.scan_of_cancelled hstate hcancelled]
      exact .cancelledScan hstate hcancelled
    | false =>
      simp only [event, call, Run.scan_of_not_cancelled hstate hcancelled]
      exact .scan hstate hcancelled
  · have hscan : s.run.scan recipe files s.ctx schedule =
        (.error (s.run.outOfTurn .initialized), s.run) := by
      simp [Run.scan, hstate]
    simp only [event, call, hscan]
    exact .refusedScan hstate

theorem visit_of_ne {run : Run} (h : ∀ facts, run ≠ ⟨.scanned, some facts⟩) (recipe : Recipe)
    (files : List SourceFile) (ctx : Context) (schedule : Schedule) :
    run.visit recipe files ctx schedule = (.error (run.outOfTurn .scanned), run, ctx) := by
  obtain ⟨state, known⟩ := run
  cases state with
  | scanned =>
    cases known with
    | none => rfl
    | some facts => exact absurd rfl (h facts)
  | _ => rfl

theorem move_visit (recipe : Recipe) (s : Session) (files : List SourceFile) (schedule : Schedule) :
    RunMove recipe (s.event recipe (.visit files schedule)) := by
  obtain ⟨run, ctx⟩ := s
  by_cases hscanned : ∃ facts, run = ⟨.scanned, some facts⟩
  · obtain ⟨facts, rfl⟩ := hscanned
    simp only [event, call, Recipe.visit_scanned]
    split_ifs with hcancelled
    · rw [Bool.and_eq_true, Bool.and_eq_true] at hcancelled
      exact .cancelledVisit hcancelled.1.1
    · exact .visit
  · have hvisit := visit_of_ne (not_exists.mp hscanned) recipe files ctx schedule
    simp only [event, call, hvisit]
    exact .refusedVisit (not_exists.mp hscanned)

theorem move (recipe : Recipe) (s : Session) (c : RunCall) : RunMove recipe (s.event recipe c) := by
  cases c with
  | scan files schedule => exact move_scan recipe s files schedule
  | visit files schedule => exact move_visit recipe s files schedule
  | cancel => exact .cancel

end Session

namespace RunMove

variable {recipe : Recipe} {e : RunEvent}

theorem rests (h : RunMove recipe e) (hrests : e.before.run.Rests) : e.after.run.Rests := by
  cases h with
  | refusedScan state => exact hrests
  | cancelledScan state cancelled => exact .cancelled _
  | scan state cancelled => exact .scanned _
  | refusedVisit state => exact hrests
  | cancelledVisit cancelled => exact .cancelled _
  | visit => exact .done _
  | cancel => exact hrests

/-- A call that finds another state than it needs is refused and changes nothing. -/
theorem refuses (h : RunMove recipe e) {needed : RunState} (hneeds : e.call.needs? = some needed)
    (hstate : e.before.run.state ≠ needed) :
    e.reply = .failed (.invalidRunState needed.name e.before.run.state.name) ∧
      e.after = e.before := by
  cases h with
  | refusedScan state =>
    cases hneeds
    exact ⟨rfl, rfl⟩
  | cancelledScan state cancelled =>
    cases hneeds
    exact absurd state hstate
  | scan state cancelled =>
    cases hneeds
    exact absurd state hstate
  | refusedVisit state =>
    cases hneeds
    exact ⟨rfl, rfl⟩
  | cancelledVisit cancelled =>
    cases hneeds
    exact absurd rfl hstate
  | visit =>
    cases hneeds
    exact absurd rfl hstate
  | cancel => cases hneeds

theorem cancels (h : RunMove recipe e) (hrests : e.before.run.Rests) {files : List SourceFile}
    {schedule : Schedule} (hcall : e.call = .scan files schedule)
    (hstate : e.before.run.state = .initialized) (hcancelled : e.before.ctx.cancelled = true) :
    e.reply = .failed .cancelled ∧ e.after.run = ⟨.cancelled, none⟩ := by
  cases h with
  | refusedScan state => exact absurd hstate state
  | @cancelledScan s files schedule state cancelled =>
    obtain ⟨run, ctx⟩ := s
    cases hrests with
    | initialized => exact ⟨rfl, rfl⟩
    | _ => cases hstate
  | @scan s files schedule state cancelled =>
    rw [hcancelled] at cancelled
    cases cancelled
  | _ => cases hcall

/-- A call in turn succeeds, unless it is cancelled. -/
theorem proceeds (h : RunMove recipe e) (hrests : e.before.run.Rests) {needed : RunState}
    (hneeds : e.call.needs? = some needed) (hstate : e.before.run.state = needed)
    (hcancelled : e.before.ctx.cancelled = false) :
    (e.reply.isScanned || e.reply.isVisited) = true := by
  cases h with
  | refusedScan state =>
    cases hneeds
    exact absurd hstate state
  | cancelledScan state cancelled =>
    rw [hcancelled] at cancelled
    cases cancelled
  | scan state cancelled => rfl
  | @refusedVisit s files schedule state =>
    cases hneeds
    obtain ⟨run, ctx⟩ := s
    cases hrests with
    | scanned facts => exact absurd rfl (state facts)
    | _ => cases hstate
  | cancelledVisit cancelled =>
    rw [hcancelled] at cancelled
    cases cancelled
  | visit => rfl
  | cancel => cases hneeds

end RunMove

namespace RunState

def isFinal : RunState → Bool
  | done => true
  | cancelled => true
  | _ => false

def scansLeft : RunState → Nat
  | initialized => 1
  | _ => 0

def visitsLeft : RunState → Nat
  | initialized => 1
  | scanned => 1
  | _ => 0

end RunState

namespace RunMove

variable {recipe : Recipe} {e : RunEvent}

theorem isFinal (h : RunMove recipe e) (hfinal : e.before.run.state.isFinal = true) :
    e.after.run.state.isFinal = true := by
  cases h with
  | scan state cancelled =>
    rw [state] at hfinal
    cases hfinal
  | refusedScan state => exact hfinal
  | refusedVisit state => exact hfinal
  | cancel => exact hfinal
  | _ => rfl

theorem fails_of_isFinal (h : RunMove recipe e) (hfinal : e.before.run.state.isFinal = true) :
    e.reply.isScanned = false ∧ e.reply.isVisited = false := by
  cases h with
  | scan state cancelled =>
    rw [state] at hfinal
    cases hfinal
  | visit => cases hfinal
  | _ => exact ⟨rfl, rfl⟩

theorem scansLeft (h : RunMove recipe e) :
    e.reply.isScanned.toNat + e.after.run.state.scansLeft ≤ e.before.run.state.scansLeft := by
  cases h with
  | scan state cancelled => simp [state, RunReply.isScanned, RunState.scansLeft]
  | _ => simp [RunReply.isScanned, RunState.scansLeft]

theorem visitsLeft (h : RunMove recipe e) :
    e.reply.isVisited.toNat + e.after.run.state.visitsLeft ≤ e.before.run.state.visitsLeft := by
  cases h with
  | scan state cancelled => simp [state, RunReply.isVisited, RunState.visitsLeft]
  | _ => simp [RunReply.isVisited, RunState.visitsLeft]

/-- Facts are new only after a scan. -/
theorem facts (h : RunMove recipe e) {facts : Scanned} (hfacts : e.after.run.scanned = some facts) :
    e.before.run.scanned = some facts ∨
      ∃ files schedule, e.call = .scan files schedule ∧ e.reply = .scanned ∧
        facts = recipe.scan files := by
  cases h with
  | @scan s files schedule state cancelled =>
    exact Or.inr ⟨files, schedule, rfl, rfl, (Option.some.inj hfacts).symm⟩
  | _ => exact Or.inl hfacts

/-- A visit that succeeds gives back its files, in their order and each as its scan asks. -/
theorem visits (h : RunMove recipe e) {after : List SourceFile}
    (hreply : e.reply = .visited after) :
    ∃ files facts schedule, e.call = .visit files schedule ∧ e.before.run.scanned = some facts ∧
      after = files.map (recipe.visited facts) := by
  cases h with
  | @visit ctx facts files schedule =>
    cases hreply
    exact ⟨files, facts, schedule, rfl, rfl, rfl⟩
  | _ => cases hreply

end RunMove

namespace Session

variable {recipe : Recipe} {s : Session} {calls : List RunCall} {e : RunEvent}

/-- What every move keeps holds before and after every event. -/
theorem forall_events {P : Session → Prop} (hmove : ∀ e, RunMove recipe e → P e.before → P e.after)
    (hs : P s) :
    ∀ e ∈ s.events recipe calls, RunMove recipe e ∧ P e.before ∧ P e.after := by
  induction calls generalizing s with
  | nil => simp [events]
  | cons c calls ih =>
    have hafter : P (s.call recipe c).2 := hmove _ (move recipe s c) hs
    rw [events, List.forall_mem_cons]
    exact ⟨⟨move recipe s c, hs, hafter⟩, ih hafter⟩

/-- An event is allowed as often as the state says, if every move counts down. -/
theorem countP_events_le {p : RunEvent → Bool} {left : RunState → Nat}
    (hmove : ∀ e, RunMove recipe e → (p e).toNat + left e.after.run.state ≤ left e.before.run.state)
    (s : Session) (calls : List RunCall) : (s.events recipe calls).countP p ≤ left s.run.state := by
  induction calls generalizing s with
  | nil => simp [events]
  | cons c calls ih =>
    have hfirst : (p (s.event recipe c)).toNat + left (s.call recipe c).2.run.state ≤
        left s.run.state :=
      hmove _ (move recipe s c)
    have hrest := ih (s.call recipe c).2
    rw [events, List.countP_cons]
    cases hp : p (s.event recipe c) with
    | false =>
      simp only [hp, Bool.toNat_false, Bool.false_eq_true, if_false] at hfirst ⊢
      omega
    | true =>
      simp only [hp, Bool.toNat_true, if_true] at hfirst ⊢
      omega

/-- What comes before and after an event is made of the calls before and after it. -/
theorem events_eq_append {early late : List RunEvent}
    (h : s.events recipe calls = early ++ e :: late) :
    ∃ first rest, early = s.events recipe first ∧ e.before = s.after recipe first ∧
      late = e.after.events recipe rest := by
  induction early generalizing s calls with
  | nil =>
    cases calls with
    | nil => cases h
    | cons c calls =>
      obtain ⟨rfl, rfl⟩ := List.cons.inj h
      exact ⟨[], calls, rfl, rfl, rfl⟩
  | cons e' early ih =>
    cases calls with
    | nil => cases h
    | cons c calls =>
      obtain ⟨rfl, hrest⟩ := List.cons.inj h
      obtain ⟨first, rest, rfl, hbefore, hlate⟩ := ih hrest
      exact ⟨c :: first, rest, rfl, hbefore, hlate⟩

/-- The facts of a session are those that it started with or those of a scan that succeeded. -/
theorem facts_after {facts : Scanned} (h : (s.after recipe calls).run.scanned = some facts) :
    s.run.scanned = some facts ∨ ∃ e ∈ s.events recipe calls, ∃ files schedule,
      e.call = .scan files schedule ∧ e.reply = .scanned ∧ facts = recipe.scan files := by
  induction calls generalizing s with
  | nil => exact Or.inl h
  | cons c calls ih =>
    obtain hfirst | ⟨e, he, hscan⟩ := ih h
    · obtain hbefore | hscan := (move recipe s c).facts hfirst
      · exact Or.inl hbefore
      · exact Or.inr ⟨_, List.mem_cons_self, hscan⟩
    · exact Or.inr ⟨e, List.mem_cons_of_mem _ he, hscan⟩

end Session

namespace Recipe

theorem path_declare (r : Recipe) (text : String) (f : SourceFile) (t : Target) :
    (r.declare text f t).path = f.path := by
  have houtcome := Insertion.outcome_intoFile ⟨Target.scope t, r.coordinate, t.declared, text⟩ f
  rw [declare_eq]
  generalize Insertion.intoFile ⟨Target.scope t, r.coordinate, t.declared, text⟩ f = outcome at *
  generalize (Target.scope t).seekAll none f.statements = found at *
  cases houtcome with
  | missing =>
    simp only
    split_ifs <;> rfl
  | kept is => rfl
  | changed is related =>
    obtain ⟨before, a, after, m, -, -, -, rfl⟩ := related
    rfl

theorem path_declareAll (r : Recipe) (text : Target → String) (targets : List Target)
    (f : SourceFile) :
    (r.declareAll text targets f).path = f.path := by
  induction targets generalizing f with
  | nil => rfl
  | cons t targets ih => exact (ih _).trans (path_declare r (text t) f t)

theorem path_edit (r : Recipe) (s : Scanned) (f : SourceFile) : (r.edit s f).1.path = f.path := by
  rw [edit_eq]
  split
  · exact path_declareAll r _ _ f
  · rfl

theorem path_visited (r : Recipe) (s : Scanned) (f : SourceFile) :
    (r.visited s f).path = f.path := by
  rw [visited_eq_edit]
  exact path_edit r s f

end Recipe

/-- The rules that a history of calls obeys. -/
structure RunProtocol (recipe : Recipe) (events : List RunEvent) : Prop where
  scans_once : events.countP (fun e => e.reply.isScanned) ≤ 1
  visits_once : events.countP (fun e => e.reply.isVisited) ≤ 1
  /-- A visit that succeeds follows a scan and gives back its files in their order. -/
  visits : ∀ early e late after, events = early ++ e :: late → e.reply = .visited after →
    ∃ scan ∈ early, ∃ scanned files scans visits, scan.call = .scan scanned scans ∧
      scan.reply = .scanned ∧
      e.call = .visit files visits ∧
      after = files.map (recipe.visited (recipe.scan scanned)) ∧
      after.map SourceFile.path = files.map SourceFile.path
  refuses : ∀ e ∈ events, ∀ needed, e.call.needs? = some needed → e.before.run.state ≠ needed →
    e.reply = .failed (.invalidRunState needed.name e.before.run.state.name) ∧ e.after = e.before
  proceeds : ∀ e ∈ events, ∀ needed, e.call.needs? = some needed → e.before.run.state = needed →
    e.before.ctx.cancelled = false → (e.reply.isScanned || e.reply.isVisited) = true
  cancels : ∀ e ∈ events, ∀ files schedule, e.call = .scan files schedule →
    e.before.run.state = .initialized →
    e.before.ctx.cancelled = true → e.reply = .failed .cancelled ∧ e.after.run = ⟨.cancelled, none⟩
  ends : ∀ early e late, events = early ++ e :: late → e.after.run.state.isFinal = true →
    ∀ e' ∈ late, e'.reply.isScanned = false ∧ e'.reply.isVisited = false
  /-- Between calls a run is at no work, and has facts once it is scanned. -/
  rests : ∀ e ∈ events, ∀ s ∈ [e.before, e.after], s.run.state ≠ .scanning ∧
    s.run.state ≠ .visiting ∧
    (s.run.state = .scanned → s.run.scanned.isSome = true)

theorem Run.Rests.between {run : Run} (h : run.Rests) :
    run.state ≠ .scanning ∧ run.state ≠ .visiting ∧
      (run.state = .scanned → run.scanned.isSome = true) := by
  cases h <;> simp

/-- Every history of calls on a new run obeys the rules. -/
theorem run_obeys_protocol (recipe : Recipe) (ctx : Context) (calls : List RunCall) :
    RunProtocol recipe ((Session.start ctx).events recipe calls) := by
  have hevents := @Session.forall_events recipe (Session.start ctx) calls (fun s => s.run.Rests)
    (fun e he => he.rests) Run.Rests.initialized
  constructor
  case scans_once => exact Session.countP_events_le (fun e he => he.scansLeft) _ _
  case visits_once => exact Session.countP_events_le (fun e he => he.visitsLeft) _ _
  case visits =>
    intro early e late after hsplit hreply
    have hmove := (hevents e (hsplit ▸ List.mem_append_right _ List.mem_cons_self)).1
    obtain ⟨files, facts, visits, hcall, hfacts, rfl⟩ := hmove.visits hreply
    obtain ⟨first, rest, rfl, hbefore, -⟩ := Session.events_eq_append hsplit
    rw [hbefore] at hfacts
    -- A new run has no facts, so those of the visit come from a scan.
    obtain hstart | ⟨scan, hscan, scanned, scans, hscanned, hok, rfl⟩ := Session.facts_after hfacts
    · cases hstart
    · exact ⟨scan, hscan, scanned, files, scans, visits, hscanned, hok, hcall, rfl,
        by simp [Recipe.path_visited]⟩
  case refuses => exact fun e he needed => (hevents e he).1.refuses
  case proceeds => exact fun e he needed => (hevents e he).1.proceeds (hevents e he).2.1
  case cancels => exact fun e he files schedule => (hevents e he).1.cancels (hevents e he).2.1
  case ends =>
    intro early e late hsplit hfinal e' he'
    obtain ⟨first, rest, -, -, rfl⟩ := Session.events_eq_append hsplit
    have hlate := @Session.forall_events recipe e.after rest (fun s => s.run.state.isFinal = true)
      (fun e he => he.isFinal) hfinal e' he'
    exact hlate.1.fails_of_isFinal hlate.2.1
  case rests =>
    intro e he
    obtain ⟨-, hbefore, hafter⟩ := hevents e he
    simp only [List.forall_mem_cons, List.not_mem_nil, false_imp_iff, implies_true, and_true]
    exact ⟨hbefore.between, hafter.between⟩

end BuildScript
