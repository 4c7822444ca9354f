import LeaseQueue.Proofs.Cluster.Background

/-!
# The ledger of an engine in a cluster

An engine, the log and the processes that carry its batches make up a ledger:

  `c.ledger e`

Whatever happens in a cluster leaves it as it is or is a step of the ledger, so that what holds of
ledgers holds of every engine in every run:

  `Ledger.Steps timeout (c.ledger e) ((c.run acts).ledger e)`
-/

namespace LeaseQueue.Cluster

open Engine (Errand Ledger Write Pending Settlement)

/-! ## The ledger of an engine in a cluster -/

def Event.taken? (e : EngineId) : Event → Option Pending
  | .accepted d p => if d = e then some p else none
  | _ => none

def Event.drained? (e : EngineId) : Event → Option (List Pending)
  | .drained d batch => if d = e then some batch else none
  | _ => none

def Event.settled? (e : EngineId) : Event → Option Settlement
  | .settled d s => if d = e then some s else none
  | _ => none

/-- A write of the engine that landed. -/
def Event.written? (e : EngineId) : Event → Option Write
  | .landed _ (.commit d _ point) _ answer =>
    if d = e && point.hasLanded answer then point.aim else none
  | _ => none

/-- The batch of the engine that a process carries. -/
def Proc.errands (e : EngineId) : Proc → List Errand
  | .awaiting (.commit d _ point) (.sent _) =>
    if d = e then [⟨point.pass.batch, point.aim, false⟩] else []
  | .awaiting (.commit d _ point) (.landed answer) =>
    if d = e then [⟨point.pass.batch, point.aim, point.hasLanded answer⟩] else []
  | .loop d _ (.backingOff pass) => if d = e then [⟨pass.batch, none, false⟩] else []
  | _ => []

def ledger (c : Cluster) (e : EngineId) : Ledger where
  tickets := c.tickets
  taken := c.log.filterMap (Event.taken? e)
  buffer := (c.engines e).buffer
  drained := c.log.filterMap (Event.drained? e)
  errands := c.procs.flatMap (Proc.errands e)
  written := c.log.filterMap (Event.written? e)
  settled := c.log.filterMap (Event.settled? e)

/-- The process carries no batch of the engine. -/
def Idle (c : Cluster) (e : EngineId) (i : ProcId) : Prop :=
  ∀ q, c.procs[i]? = some q → q.errands e = []

variable {c : Cluster} {i : ProcId} {d e : EngineId}

/-! ## What leaves a ledger as it is -/

theorem ledger_record (event : Event) (htaken : event.taken? e = none)
    (hdrained : event.drained? e = none) (hwritten : event.written? e = none)
    (hsettled : event.settled? e = none) : (c.record event).ledger e = c.ledger e := by
  simp only [ledger, record, List.filterMap_cons_none htaken, List.filterMap_cons_none hdrained,
    List.filterMap_cons_none hwritten, List.filterMap_cons_none hsettled]

theorem ledger_setEngine (engine : Engine) (h : d = e → engine.buffer = (c.engines e).buffer) :
    (c.setEngine d engine).ledger e = c.ledger e := by
  have hbuffer : (Function.update c.engines d engine e).buffer = (c.engines e).buffer := by
    by_cases hd : e = d
    · subst hd
      rw [Function.update_self, h rfl]
    · rw [Function.update_of_ne hd]
  simp only [ledger, setEngine, hbuffer]

theorem flatMap_set_of_eq {α β : Type} {f : α → List β} {as : List α} {a : α}
    (h : ∀ x, as[i]? = some x → f x = f a) : (as.set i a).flatMap f = as.flatMap f := by
  induction as generalizing i with
  | nil => rfl
  | cons x as ih =>
    cases i with
    | zero => rw [List.set_cons_zero, List.flatMap_cons, List.flatMap_cons, h x rfl]
    | succ i => rw [List.set_cons_succ, List.flatMap_cons, List.flatMap_cons, ih h]

theorem ledger_setProc_of_eq {proc : Proc}
    (h : ∀ q, c.procs[i]? = some q → q.errands e = proc.errands e) :
    (c.setProc i proc).ledger e = c.ledger e := by
  simp only [ledger, setProc, flatMap_set_of_eq h]

theorem ledger_setProc (h : c.Idle e i) (proc : Proc) (hproc : proc.errands e = []) :
    (c.setProc i proc).ledger e = c.ledger e :=
  ledger_setProc_of_eq fun q hq => (h q hq).trans hproc.symm

theorem ledger_spawn {proc : Proc} (hproc : proc.errands e = []) :
    (c.spawn proc).ledger e = c.ledger e := by
  simp [ledger, spawn, hproc]

theorem ledger_settle {settled : List Settlement} (h : d ≠ e) :
    (c.settle d settled).ledger e = c.ledger e := by
  have hnone {β : Type} {f : Event → Option β} (hf : ∀ s, f (.settled d s) = none) :
      (settled.map (Event.settled d)).reverse.filterMap f = [] := by
    rw [List.filterMap_eq_nil_iff]
    simp [hf]
  simp only [ledger, settle, List.filterMap_append]
  rw [hnone fun _ => rfl, hnone fun _ => rfl, hnone fun _ => rfl,
    hnone fun _ => if_neg h]
  rfl

/-- The caller is not a pass of the engine. -/
def Caller.IsOther (e : EngineId) {a : Store.Access} : Caller a → Prop
  | .commit d _ _ => d ≠ e
  | _ => True

theorem ledger_launch (h : c.Idle e i) {a : Store.Access} (caller : Caller a)
    (hother : caller.IsOther e) : (c.launch i caller).ledger e = c.ledger e := by
  have hproc (failure : Option Store.Error) :
      (Proc.awaiting caller (.sent failure)).errands e = [] := by
    cases caller with
    | commit d epoch point => exact if_neg hother
    | start | election | broker | beat | client => rfl
  exact (ledger_record _ rfl rfl rfl rfl).trans (ledger_setProc h _ (hproc _))

theorem idle_spawn {proc : Proc} (hproc : proc.errands e = []) :
    (c.spawn proc).Idle e c.procs.length := by
  intro q hq
  rw [spawn, List.getElem?_concat_length] at hq
  cases hq
  exact hproc

theorem ledger_begin {a : Store.Access} {caller : Caller a} (hother : caller.IsOther e) :
    (c.begin caller).ledger e = c.ledger e :=
  (ledger_launch (idle_spawn rfl) caller hother).trans (ledger_spawn rfl)

theorem Idle.setEngine (h : c.Idle e i) (engine : Engine) : (c.setEngine d engine).Idle e i := h

theorem ledger_followStart {move : Engine × Engine.Startup.Progress} (h : c.Idle e i)
    (hkeeps : Engine.Keeps (c.engines d) move.1) :
    (c.followStart i d move).ledger e = c.ledger e := by
  have hset := ledger_setEngine move.1 fun hd : d = e => hd ▸ hkeeps.buffer
  obtain ⟨engine, result | point⟩ := move
  · have hended := (ledger_setProc (h.setEngine engine) .ended rfl).trans hset
    have hnoted := (ledger_record (.started d result) rfl rfl rfl rfl).trans hended
    cases result with
    | running epoch kick => exact (ledger_spawn rfl).trans hnoted
    | already | failed => exact hnoted
  · exact (ledger_launch (h.setEngine engine) (.start d point) trivial).trans hset

theorem ledger_followLoop {epoch : Nat} {next : Engine.LoopStep} (h : c.Idle e i)
    (hnext : d = e → next.errands = []) : (c.followLoop i d epoch next).ledger e = c.ledger e := by
  cases next with
  | rest | giveWay | leave => exact ledger_setProc h _ rfl
  | commit point => exact ledger_launch h (.commit d epoch point) fun hd => by cases hnext hd
  | backOff pass wait => exact ledger_setProc h _ (if_neg fun hd => by cases hnext hd)

theorem ledger_followElection {election : Election}
    {progress : Store.Progress Election.Attempt Election.Outcome} (h : c.Idle e i) :
    (c.followElection i election progress).ledger e = c.ledger e := by
  cases progress with
  | done outcome => exact (ledger_record _ rfl rfl rfl rfl).trans (ledger_setProc h _ rfl)
  | waiting attempt => exact ledger_launch h (.election election attempt) trivial

theorem ledger_crown {b : BrokerId} {document : Option Document} :
    (c.crown b document).ledger e = c.ledger e := by
  cases document with
  | none => rfl
  | some document => exact ledger_record _ rfl rfl rfl rfl

theorem ledger_noteBatch (h : d ≠ e) : (c.noteBatch d).ledger e = c.ledger e := by
  unfold noteBatch
  split
  · rfl
  · exact ledger_record _ rfl (if_neg h) rfl rfl

theorem ledger_followMove {epoch : Nat} {move : Engine.LoopMove} (h : c.Idle e i)
    (hmove : d = e → move.Ends (c.engines e) []) :
    (c.followMove i d epoch move).ledger e = c.ledger e := by
  let c' := (c.setEngine d move.engine).setIds move.ids
  have hset : c'.ledger e = c.ledger e :=
    ledger_setEngine move.engine fun heq => (hmove heq).keeps.buffer
  have hsettle : (c'.settle d move.settled).ledger e = c'.ledger e := by
    by_cases hd : d = e
    · rw [(hmove hd).settled]
      rfl
    · exact ledger_settle hd
  have hidle : (c'.settle d move.settled).Idle e i := h
  refine Eq.trans ?_ (hsettle.trans hset)
  exact ledger_followLoop hidle fun heq => (hmove heq).errands

/-! ## Submitting and stopping -/

variable {timeout : Millis} {b : BrokerId}

theorem steps_of_eq {l l' : Ledger} (h : l' = l) : Ledger.Steps timeout l l' := h ▸ .refl

theorem ledger_submit_other (m : Mutation) (hd : d ≠ e) :
    (c.submit d m).ledger e = { c.ledger e with tickets := c.tickets + 1 } := by
  rw [submit]
  split
  · rw [ledger_record _ rfl rfl rfl rfl]
    rfl
  · rw [ledger_record (.accepted d _) (if_neg hd) rfl rfl rfl,
      ledger_setEngine _ fun heq => absurd heq hd]
    rfl

theorem ledger_submit_self (m : Mutation) :
    (c.submit e m).ledger e = { c.ledger e with tickets := c.tickets + 1 } ∨
    (c.submit e m).ledger e = { c.ledger e with
      tickets := c.tickets + 1
      taken := ⟨c.tickets, m⟩ :: (c.ledger e).taken
      buffer := (c.ledger e).buffer ++ [⟨c.tickets, m⟩] } := by
  by_cases hphase : (c.engines e).phase = .stopped
  · refine .inl ?_
    simp only [submit, Engine.submit, if_pos hphase]
    rw [ledger_record _ rfl rfl rfl rfl]
    rfl
  · refine .inr ?_
    simp only [submit, Engine.submit, if_neg hphase]
    simp [ledger, record, setEngine, List.filterMap_cons, Event.taken?, Event.drained?,
      Event.written?, Event.settled?]

theorem steps_submit (m : Mutation) :
    Ledger.Steps timeout (c.ledger e) ((c.submit d m).ledger e) := by
  apply Relation.ReflTransGen.single
  by_cases hd : d = e
  · subst hd
    rcases ledger_submit_self (c := c) (e := d) m with hpass | htake
    · exact hpass ▸ .pass (c.ledger d)
    · exact htake ▸ .take (c.ledger d) m
  · exact ledger_submit_other m hd ▸ .pass (c.ledger e)

theorem ledger_settle_self (settled : List Settlement) :
    (c.settle e settled).ledger e =
      { c.ledger e with settled := settled.reverse ++ (c.ledger e).settled } := by
  have hnone {β : Type} {f : Event → Option β} (hf : ∀ s, f (.settled e s) = none) :
      (settled.map (Event.settled e)).reverse.filterMap f = [] := by
    rw [List.filterMap_eq_nil_iff]
    simp [hf]
  have hsome : (settled.map (Event.settled e)).reverse.filterMap (Event.settled? e) =
      settled.reverse := by
    rw [List.filterMap_reverse, List.filterMap_map]
    simp [Function.comp_def, Event.settled?]
  simp only [ledger, settle, List.filterMap_append]
  rw [hnone fun _ => rfl, hnone fun _ => rfl, hnone fun _ => rfl, hsome]
  rfl

theorem steps_stopEngine : Ledger.Steps timeout (c.ledger e) ((c.stopEngine d).ledger e) := by
  unfold stopEngine
  split
  · exact .refl
  next engine settled heq =>
    simp only [Engine.stop?] at heq
    split at heq
    · cases heq
    · cases heq
      by_cases hd : d = e
      · subst hd
        apply Relation.ReflTransGen.single
        rw [ledger_settle_self]
        have hstop : Ledger.Step timeout (c.ledger d) _ := .reject (c.ledger d)
        simpa [ledger, setEngine] using hstop
      · apply steps_of_eq
        rw [ledger_settle hd, ledger_setEngine _ fun heq => absurd heq hd]

theorem steps_stopBroker : Ledger.Steps timeout (c.ledger e) ((c.stopBroker b).ledger e) := by
  unfold stopBroker
  split
  next broker _ =>
    exact steps_stopEngine (c := c.setReign b (.begun broker.stop))
  · exact .refl

/-! ## Following moves -/

theorem procs_submit (m : Mutation) : (c.submit d m).procs = c.procs := by
  rw [submit]
  split <;> rfl

theorem Idle.submit (h : c.Idle e i) (m : Mutation) : (c.submit d m).Idle e i := by
  rw [Idle, procs_submit]
  exact h

theorem Idle.spawn (h : c.Idle e i) {proc : Proc} (hproc : proc.errands e = []) :
    (c.spawn proc).Idle e i := by
  intro q hq
  rw [Cluster.spawn, List.getElem?_append] at hq
  split at hq
  · exact h q hq
  · rw [List.getElem?_singleton] at hq
    split at hq <;> cases hq
    exact hproc

theorem steps_followBroker {move : Engine × Broker.StartStep} (h : c.Idle e i)
    (hkeeps : Engine.Keeps (c.engines (.ofBroker b)) move.1) :
    Ledger.Steps timeout (c.ledger e) ((c.followBroker i b move).ledger e) := by
  have hset := ledger_setEngine move.1 fun hd : .ofBroker b = e => hd ▸ hkeeps.buffer
  obtain ⟨engine, point | ⟨epoch, kick, registration⟩ | cause⟩ := move
  · exact steps_of_eq ((ledger_launch (h.setEngine engine) (.broker b point) trivial).trans hset)
  · let c' := (c.setEngine (.ofBroker b) engine).spawn (.loop (.ofBroker b) epoch .entering)
    have hspawn : c'.ledger e = c.ledger e := (ledger_spawn rfl).trans hset
    have hidle : c'.Idle e i := Idle.spawn h rfl
    have hsubmit : Ledger.Steps timeout (c'.ledger e)
        ((c'.submit (.ofBroker b) registration).ledger e) := steps_submit registration
    exact (hspawn ▸ hsubmit).trans (steps_of_eq (ledger_setProc (hidle.submit _) _ rfl))
  · exact steps_of_eq ((ledger_setProc (h.setEngine engine) .ended rfl).trans hset)

theorem steps_enthrone (h : c.Idle e i) (verdict : Engine.Verdict) :
    Ledger.Steps timeout (c.ledger e) ((c.enthrone i b verdict).ledger e) := by
  have hended := ledger_setProc h .ended rfl
  cases verdict with
  | ok result => exact steps_of_eq hended
  | error cause =>
    let c' := (c.setProc i .ended).setReign b (.failed (.engine cause))
    exact (steps_of_eq hended).trans (steps_stopEngine (c := c'))

theorem steps_finishBeat (h : c.Idle e i) (own : Bool) (result : Except Broker.Error Bool) :
    Ledger.Steps timeout (c.ledger e) ((c.finishBeat i b own result).ledger e) := by
  have hended := (ledger_record (.beaten b result) rfl rfl rfl rfl).trans
    (ledger_setProc h .ended rfl)
  fun_cases finishBeat c i b own result
  · exact (steps_of_eq hended).trans steps_stopBroker
  · exact steps_of_eq hended

theorem steps_followBeat (h : c.Idle e i) (own : Bool) (next : Broker.HeartbeatStep) :
    Ledger.Steps timeout (c.ledger e) ((c.followBeat i b own next).ledger e) := by
  cases next with
  | done result => exact steps_finishBeat h own result
  | renew renewal =>
    exact (steps_submit renewal).trans (steps_of_eq (ledger_setProc (h.submit _) _ rfl))

/-! ## Passes of the engine itself -/

/-- The errands of all processes but one. -/
def others (c : Cluster) (e : EngineId) (i : ProcId) : List Errand :=
  (c.procs.eraseIdx i).flatMap (Proc.errands e)

theorem errands_perm {q : Proc} (hq : c.procs[i]? = some q) :
    (c.ledger e).errands.Perm (q.errands e ++ c.others e i) := by
  obtain ⟨hi, rfl⟩ := List.getElem?_eq_some_iff.1 hq
  exact (List.getElem_cons_eraseIdx_perm hi).symm.flatMap_right (Proc.errands e)

theorem errands_set_perm {q : Proc} (hq : c.procs[i]? = some q) (proc : Proc) :
    ((c.procs.set i proc).flatMap (Proc.errands e)).Perm (proc.errands e ++ c.others e i) := by
  obtain ⟨hi, _⟩ := List.getElem?_eq_some_iff.1 hq
  exact (List.set_perm_cons_eraseIdx hi proc).flatMap_right (Proc.errands e)

theorem ledger_followLoop_self {q : Proc} (hq : c.procs[i]? = some q) (epoch : Nat)
    (next : Engine.LoopStep) :
    ∃ errands, errands.Perm (next.errands ++ c.others e i) ∧
      (c.followLoop i e epoch next).ledger e = { c.ledger e with errands } := by
  have hset (proc : Proc) (hproc : proc.errands e = next.errands) :
      ∃ errands, errands.Perm (next.errands ++ c.others e i) ∧
        (c.setProc i proc).ledger e = { c.ledger e with errands } :=
    ⟨_, hproc ▸ errands_set_perm hq proc, rfl⟩
  cases next with
  | rest | giveWay | leave => exact hset _ rfl
  | backOff pass wait => exact hset _ (if_pos rfl)
  | commit point =>
    obtain ⟨errands, hperm, hledger⟩ :=
      hset (.awaiting (.commit e epoch point) (.sent _)) (if_pos rfl)
    exact ⟨errands, hperm, (ledger_record _ rfl rfl rfl rfl).trans hledger⟩

theorem ledger_followMove_self {q : Proc} (hq : c.procs[i]? = some q) (epoch : Nat)
    (move : Engine.LoopMove) :
    ∃ errands, errands.Perm (move.next.errands ++ c.others e i) ∧
      (c.followMove i e epoch move).ledger e = { c.ledger e with
        buffer := move.engine.buffer
        errands := errands
        settled := move.settled.reverse ++ (c.ledger e).settled } := by
  let c' := (c.setEngine e move.engine).setIds move.ids
  obtain ⟨errands, hperm, hledger⟩ := ledger_followLoop_self (c := c'.settle e move.settled)
    (e := e) hq epoch move.next
  refine ⟨errands, hperm, hledger.trans ?_⟩
  rw [ledger_settle_self]
  simp [c', ledger, setEngine, setIds]

/-- A pass that goes on with its batch. -/
theorem steps_goesOn {q : Proc} (hq : c.procs[i]? = some q) {f : Errand}
    (hf : q.errands e = [f]) (hnot : f.landed = false) {epoch : Nat} {move : Engine.LoopMove}
    (hmove : move.GoesOn (c.engines e) f.batch) :
    Ledger.Steps (c.engines e).options.heartbeatTimeout (c.ledger e)
      ((c.followMove i e epoch move).ledger e) := by
  obtain ⟨errands, hafter, hledger⟩ := ledger_followMove_self (e := e) hq epoch move
  obtain ⟨write, hnext, hfold⟩ := hmove.errands
  have hbefore := errands_perm (e := e) hq
  rw [hf] at hbefore
  rw [hnext] at hafter
  have haim := Ledger.Step.aim (c.ledger e) errands _ f write hbefore hnot hfold hafter
  apply Relation.ReflTransGen.single
  rw [hledger, hmove.settled, hmove.keeps.buffer]
  exact haim

/-- A pass that is over. -/
theorem ledger_ends {q : Proc} (hq : c.procs[i]? = some q) {f : Errand} (hf : q.errands e = [f])
    {epoch : Nat} {move : Engine.LoopMove} {settled : List Settlement}
    (hmove : move.Ends (c.engines e) settled) :
    ∃ errands, (c.ledger e).errands.Perm (f :: errands) ∧
      (c.followMove i e epoch move).ledger e = { c.ledger e with
        errands := errands
        settled := settled.reverse ++ (c.ledger e).settled } := by
  obtain ⟨errands, hafter, hledger⟩ := ledger_followMove_self (e := e) hq epoch move
  have hbefore := errands_perm (e := e) hq
  rw [hf] at hbefore
  rw [hmove.errands] at hafter
  rw [hmove.settled, hmove.keeps.buffer] at hledger
  exact ⟨errands, hbefore.trans (hafter.symm.cons f), hledger⟩

theorem steps_resumeCommit {epoch : Nat} {a : Store.Access} {point : Engine.Commit a}
    {answer : Store.Answer a}
    (hq : c.procs[i]? = some (.awaiting (.commit e epoch point) (.landed answer))) :
    Ledger.Steps (c.engines e).options.heartbeatTimeout (c.ledger e) ((c.followMove i e epoch
      ((c.engines e).resumeCommit epoch c.clock c.ids point answer)).ledger e) := by
  have hf : Proc.errands e (.awaiting (.commit e epoch point) (.landed answer)) =
      [⟨point.pass.batch, point.aim, point.hasLanded answer⟩] := if_pos rfl
  have hcases := Engine.resumeCommit_cases (c.engines e) epoch c.clock c.ids point answer
  dsimp only at hcases
  split at hcases
  next hlanded =>
    obtain ⟨w, haim, hbatch, hends⟩ := hcases
    rw [haim, hlanded] at hf
    obtain ⟨errands, hbefore, hledger⟩ := ledger_ends hq hf hends
    apply Relation.ReflTransGen.single
    rw [hledger]
    exact .finish (c.ledger e) errands _ w hbefore
  next hlanded =>
    have hnot : point.hasLanded answer = false := Bool.eq_false_iff.2 hlanded
    rcases hcases with hgoes | ⟨cause, hends⟩
    · exact steps_goesOn hq hf hnot hgoes
    · obtain ⟨errands, hbefore, hledger⟩ := ledger_ends hq hf hends
      apply Relation.ReflTransGen.single
      rw [hledger]
      exact .fail (c.ledger e) errands _ cause hbefore hnot

theorem noteBatch_of_nil (h : (c.engines e).buffer = []) : c.noteBatch e = c := by
  rw [noteBatch, h]

theorem noteBatch_of_ne_nil (h : (c.engines e).buffer ≠ []) :
    c.noteBatch e = c.record (.drained e (c.engines e).buffer) := by
  unfold noteBatch
  split
  next hnil => exact absurd hnil h
  · rfl

theorem ledger_noteBatch_self (h : (c.engines e).buffer ≠ []) :
    (c.noteBatch e).ledger e =
      { c.ledger e with drained := (c.ledger e).buffer :: (c.ledger e).drained } := by
  rw [noteBatch_of_ne_nil h]
  simp [ledger, record, List.filterMap_cons, Event.taken?, Event.drained?, Event.written?,
    Event.settled?]

theorem steps_drain {epoch : Nat} (hq : c.procs[i]? = some (.loop e epoch .givingWay)) :
    Ledger.Steps (c.engines e).options.heartbeatTimeout (c.ledger e)
      ((c.stepLoop i e epoch .givingWay).ledger e) := by
  have hidle : c.Idle e i := by
    intro q hq'
    rw [hq] at hq'
    cases hq'
    rfl
  by_cases hbuffer : (c.engines e).buffer = []
  · apply steps_of_eq
    rw [stepLoop, noteBatch_of_nil hbuffer]
    exact ledger_followMove hidle fun _ => Engine.drain_nil hbuffer epoch c.clock c.ids
  · have hmove := Engine.drain_goesOn hbuffer epoch c.clock c.ids
    obtain ⟨write, hnext, hfold⟩ := hmove.errands
    have hq' : (c.noteBatch e).procs[i]? = some (.loop e epoch .givingWay) := by
      rw [noteBatch_of_ne_nil hbuffer]
      exact hq
    obtain ⟨errands, hafter, hledger⟩ := ledger_followMove_self (e := e) hq' epoch
      ((c.engines e).drain epoch c.clock c.ids)
    have hothers : (c.noteBatch e).others e i = c.others e i := by
      rw [noteBatch_of_ne_nil hbuffer]
      rfl
    have hbefore : (c.ledger e).errands.Perm (c.others e i) := errands_perm (e := e) hq
    rw [hnext, hothers] at hafter
    let drained : Errand := ⟨(c.engines e).buffer, none, false⟩
    rw [stepLoop, hledger, ledger_noteBatch_self hbuffer, hmove.settled, hmove.keeps.buffer]
    refine .tail (.single (.drain (c.ledger e) (drained :: c.others e i) hbuffer ?_)) ?_
    · exact hbefore.symm.cons _
    · exact .aim _ errands (c.others e i) drained write (.refl _) rfl hfold hafter

/-! ## Every step refines the ledger -/

theorem idle_of_errands {q : Proc} (hq : c.procs[i]? = some q) (h : q.errands e = []) :
    c.Idle e i := by
  intro q' hq'
  rw [hq] at hq'
  cases hq'
  exact h

theorem steps_resume {a : Store.Access} {caller : Caller a} {answer : Store.Answer a}
    (hq : c.procs[i]? = some (.awaiting caller (.landed answer))) :
    Ledger.Steps (c.engines e).options.heartbeatTimeout (c.ledger e)
      ((c.resume i caller answer).ledger e) := by
  cases caller with
  | start d point =>
    have hkeeps := Engine.resumeStart_keeps (c.engines d) point answer
    exact steps_of_eq (ledger_followStart (idle_of_errands hq rfl) hkeeps)
  | commit d epoch point =>
    by_cases hd : d = e
    · subst hd
      exact steps_resumeCommit hq
    · have hidle := idle_of_errands hq (if_neg hd)
      exact steps_of_eq (ledger_followMove hidle fun heq => absurd heq hd)
  | election election attempt =>
    exact steps_of_eq (ledger_followElection (idle_of_errands hq rfl))
  | broker b point =>
    let document := crown? (c.seats b).options point answer
    have hidle : (c.crown b document).Idle e i := by
      cases document <;> exact idle_of_errands hq rfl
    have hkeeps : Engine.Keeps ((c.crown b document).engines (.ofBroker b))
        (Broker.resumeStart (c.seats b).options (c.engines (.ofBroker b)) point answer).1 := by
      rw [engines_crown]
      exact Broker.resumeStart_keeps _ _ _ _
    exact (steps_of_eq ledger_crown).trans (steps_followBroker hidle hkeeps)
  | beat b own => exact steps_followBeat (idle_of_errands hq rfl) own _
  | client call => exact steps_of_eq (ledger_setProc (idle_of_errands hq rfl) .ended rfl)

theorem steps_stepLoop {epoch : Nat} {pause : Pause}
    (hq : c.procs[i]? = some (.loop d epoch pause)) :
    Ledger.Steps (c.engines e).options.heartbeatTimeout (c.ledger e)
      ((c.stepLoop i d epoch pause).ledger e) := by
  cases pause with
  | entering =>
    apply steps_of_eq
    exact ledger_followLoop (idle_of_errands hq rfl) fun _ => Engine.enterLoop_errands _ _
  | resting =>
    apply steps_of_eq
    exact ledger_followLoop (idle_of_errands hq rfl) fun _ => Engine.wakeLoop_errands _ _
  | givingWay =>
    by_cases hd : d = e
    · subst hd
      exact steps_drain hq
    · have hidle : (c.noteBatch d).Idle e i := by
        unfold noteBatch
        split <;> exact idle_of_errands hq rfl
      refine steps_of_eq (Eq.trans ?_ (ledger_noteBatch hd))
      exact ledger_followMove hidle fun heq => absurd heq hd
  | backingOff pass =>
    by_cases hd : d = e
    · subst hd
      exact steps_goesOn hq (if_pos rfl) rfl (Engine.attempt_goesOn _ _ _ _)
    · have hidle := idle_of_errands hq (if_neg hd)
      exact steps_of_eq (ledger_followMove hidle fun heq => absurd heq hd)

theorem steps_proceed : Ledger.Steps (c.engines e).options.heartbeatTimeout (c.ledger e)
    ((c.proceed i).ledger e) := by
  unfold proceed
  split
  next hq => exact steps_resume hq
  next hq => exact steps_stepLoop hq
  next hq =>
    split
    · exact steps_enthrone (idle_of_errands hq rfl) _
    · exact .refl
  next hq =>
    split
    · exact steps_finishBeat (idle_of_errands hq rfl) _ _
    · exact .refl
  · exact .refl

/-- An effect that is not that of a write of the engine. -/
theorem ledger_landed_other {a : Store.Access} {caller : Caller a} {failure : Option Store.Error}
    (hq : c.procs[i]? = some (.awaiting caller (.sent failure))) {answer : Store.Answer a}
    {memory : Store.Memory}
    (hevent : Event.written? e (.landed c.clock caller (c.callOf caller) answer) = none)
    (hproc : Proc.errands e (.awaiting caller (.sent failure)) =
      Proc.errands e (.awaiting caller (.landed answer))) :
    (c.landed i caller answer memory).ledger e = c.ledger e := by
  rw [landed, ledger_record _ rfl rfl hevent rfl, ledger_setProc_of_eq]
  · rfl
  · intro q hq'
    obtain rfl := Option.some.inj (hq.symm.trans hq')
    exact hproc

/-- The effect of a call, whatever its answer is. -/
theorem steps_landed {a : Store.Access} {caller : Caller a} {failure : Option Store.Error}
    (hq : c.procs[i]? = some (.awaiting caller (.sent failure))) (answer : Store.Answer a)
    (memory : Store.Memory) :
    Ledger.Steps timeout (c.ledger e) ((c.landed i caller answer memory).ledger e) := by
  cases caller with
  | commit d epoch point =>
    by_cases hd : d = e
    · subst hd
      cases hlanded : point.hasLanded answer with
      | false =>
        apply steps_of_eq
        exact ledger_landed_other hq (by simp [Event.written?, hlanded])
          (by simp [Proc.errands, hlanded])
      | true =>
        obtain ⟨w, haim, _⟩ := Engine.Commit.aim_of_hasLanded hlanded
        have hbefore := errands_perm (e := d) hq
        have hafter := errands_set_perm (e := d) hq
          (.awaiting (.commit d epoch point) (.landed answer))
        simp only [Proc.errands, if_pos, haim, hlanded] at hbefore hafter
        apply Relation.ReflTransGen.single
        have hland : Ledger.Step timeout (c.ledger d) _ := .land _ _ _ _ w hbefore hafter
        simpa [ledger, landed, record, setProc, List.filterMap_cons, Event.taken?, Event.drained?,
          Event.written?, Event.settled?, hlanded, haim] using hland
    · apply steps_of_eq
      exact ledger_landed_other hq (by simp [Event.written?, hd]) (by simp [Proc.errands, hd])
  | start | election | broker | beat | client =>
    exact steps_of_eq (ledger_landed_other hq rfl rfl)

theorem steps_land : Ledger.Steps timeout (c.ledger e) ((c.land i).ledger e) := by
  rcases land_cases c i with heq | ⟨a, caller, failure, hq, heq⟩
  · exact steps_of_eq (congrArg (ledger · e) heq)
  · rw [heq]
    exact steps_landed hq _ _

/-- **Every step of a cluster is one of steps of each ledger.** -/
theorem steps_step (act : Act) :
    Ledger.Steps (c.engines e).options.heartbeatTimeout (c.ledger e) ((c.step act).ledger e) := by
  cases act with
  | setClock clock => exact .refl
  | setMemory options => exact .refl
  | submit d m =>
    rw [step]
    split
    · exact steps_submit m
    · exact .refl
  | startEngine d =>
    rw [step]
    split
    · have hkeeps := Engine.start_keeps (c.engines d)
      have hidle : (c.spawn .ended).Idle e c.procs.length := idle_spawn rfl
      exact steps_of_eq ((ledger_followStart hidle hkeeps).trans (ledger_spawn rfl))
    · exact .refl
  | stopEngine d =>
    rw [step]
    split
    · exact steps_stopEngine
    · exact .refl
  | elect election now =>
    have hstood : (c.record (.stood election now)).ledger e = c.ledger e :=
      ledger_record _ rfl rfl rfl rfl
    refine steps_of_eq (Eq.trans ?_ hstood)
    exact ledger_begin trivial
  | call call => exact steps_of_eq (ledger_begin trivial)
  | startBroker b =>
    rw [step, startBroker]
    split
    · have hstood : ((c.setReign b .starting).record
          (.stood (c.seats b).options.election c.clock)).ledger e = c.ledger e :=
        ledger_record _ rfl rfl rfl rfl
      refine steps_of_eq (Eq.trans ?_ hstood)
      exact ledger_begin trivial
    · exact .refl
  | beat b own =>
    rw [step, beat]
    split
    · exact steps_of_eq (ledger_begin trivial)
    · exact .refl
  | stopBroker b => exact steps_stopBroker
  | land i => exact steps_land
  | proceed i => exact steps_proceed

theorem steps_run (acts : List Act) :
    Ledger.Steps (c.engines e).options.heartbeatTimeout (c.ledger e)
      ((c.run acts).ledger e) := by
  induction acts generalizing c with
  | nil => exact .refl
  | cons act acts ih =>
    have hoptions : ((c.step act).engines e).options = (c.engines e).options :=
      engine_options_eq (options_step c act) e
    have hrest := ih (c := c.step act)
    rw [hoptions] at hrest
    exact (steps_step act).trans hrest

end LeaseQueue.Cluster
