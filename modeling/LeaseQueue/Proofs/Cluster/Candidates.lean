import LeaseQueue.Proofs.Cluster.Ages
import LeaseQueue.Proofs.Cluster.Processes

/-!
# The course of a candidacy

An attempt to be elected is made by a process, for itself or for a broker.  It looks at the
document, then puts one of its own if it means to take over, and then it is decided.  It never goes
back:

  `c.course i ≤ (c.step act).course i`, and as long as it is the same, `c.standing? i` is the same

So whatever an attempt waits for, it is known what it has found and what it has aimed at (`Told`).
-/

namespace LeaseQueue.Cluster

/-- An attempt, and how far its call is. -/
structure Standing where
  election : Election
  {access : Store.Access}
  attempt : Election.Attempt access
  flight : Flight access

/-- The attempt that a process makes, for itself or for a broker. -/
def Proc.standing? (brokers : BrokerId → Broker.Options) : Proc → Option Standing
  | .awaiting (.election election attempt) flight => some ⟨election, attempt, flight⟩
  | .awaiting (.broker b (.electing _ attempt)) flight =>
    some ⟨(brokers b).election, attempt, flight⟩
  | _ => none

def standing? (c : Cluster) (i : ProcId) : Option Standing :=
  c.procs[i]?.bind (Proc.standing? c.options.2)

/-! ## What happens to an attempt -/

/-- The attempt sees what is there. -/
structure Moment.Looks (m : Moment) (i : ProcId) (election : Election) (now : Millis)
    (found : Option Store.Memory.Entry) : Prop where
  act : m.act = .land i
  stands : m.before.standing? i = some ⟨election, .looking now, .sent none⟩
  found : m.before.memory.entry? election.stateKey = found

/-- The put of the attempt takes effect, or is refused. -/
structure Moment.Lands (m : Moment) (i : ProcId) (election : Election)
    (attempt : Election.Attempt .put) (answer : Store.Answer .put) : Prop where
  act : m.act = .land i
  lands : ∃ failure, m.before.standing? i = some ⟨election, attempt, .sent failure⟩ ∧
    (m.before.memory.finish ⟨attempt.call election, failure⟩).1 = answer

/-- The attempt is decided. -/
structure Moment.Decides (m : Moment) (i : ProcId) (election : Election)
    (outcome : Election.Outcome) : Prop where
  act : m.act = .proceed i
  decides : ∃ (a : Store.Access) (attempt : Election.Attempt a) (answer : Store.Answer a),
    m.before.standing? i = some ⟨election, attempt, .landed answer⟩ ∧
    election.resume attempt answer = .done outcome

/-- A put of the attempt is on its way, or has been answered. -/
def Moment.HasPut (m : Moment) (i : ProcId) : Prop :=
  ∃ (election : Election) (attempt : Election.Attempt .put) (flight : Flight .put),
    m.after.standing? i = some ⟨election, attempt, flight⟩

/-- What follows for an attempt from what it has found. -/
def Aims (election : Election) (now : Millis) (found : Option Store.Memory.Entry)
    (attempt : Election.Attempt .put) : Prop :=
  election.resume (.looking now) (.ok (found.map Store.Memory.Entry.toObject)) = .waiting attempt

inductive StandingStep (c : Cluster) (act : Act) (i : ProcId) : Prop where
  | stays (h : (c.step act).standing? i = c.standing? i)
  | begins {election : Election} {now : Millis} (hold : c.procs.length ≤ i)
    (h : (c.step act).standing? i =
      some ⟨election, .looking now, .sent c.memory.options.failure⟩)
  | lands {election : Election} {a : Store.Access} {attempt : Election.Attempt a}
    {failure : Option Store.Error} (hact : act = .land i)
    (hold : c.standing? i = some ⟨election, attempt, .sent failure⟩)
    (h : (c.step act).standing? i = some ⟨election, attempt,
      .landed (c.memory.finish ⟨attempt.call election, failure⟩).1⟩)
  | goesOn {election : Election} {a a' : Store.Access} {attempt : Election.Attempt a}
    {answer : Store.Answer a} {attempt' : Election.Attempt a'} (hact : act = .proceed i)
    (hold : c.standing? i = some ⟨election, attempt, .landed answer⟩)
    (hresume : election.resume attempt answer = .waiting attempt')
    (h : (c.step act).standing? i = some ⟨election, attempt', .sent c.memory.options.failure⟩)
  | ends {election : Election} {a : Store.Access} {attempt : Election.Attempt a}
    {answer : Store.Answer a} {outcome : Election.Outcome} (hact : act = .proceed i)
    (hold : c.standing? i = some ⟨election, attempt, .landed answer⟩)
    (hdone : election.resume attempt answer = .done outcome)
    (h : (c.step act).standing? i = none)

/-- How far an attempt is. -/
def Standing.rank : Standing → Nat
  | ⟨_, .looking _, .sent _⟩ => 1
  | ⟨_, .looking _, .landed _⟩ => 2
  | ⟨_, .founding _, .sent _⟩ | ⟨_, .takingOver _ _, .sent _⟩ => 3
  | ⟨_, .founding _, .landed _⟩ | ⟨_, .takingOver _ _, .landed _⟩ => 4

/-- How far a process is with an attempt, from one that is not there to one that has ended. -/
def course (c : Cluster) (i : ProcId) : Nat :=
  match c.standing? i with
  | some s => s.rank
  | none => if i < c.procs.length then 5 else 0

variable {c : Cluster} {i : ProcId} {act : Act} {p q : Proc}

/-! ## One step -/

theorem standing?_of_getElem? (hq : c.procs[i]? = some q) :
    c.standing? i = q.standing? c.options.2 := by
  rw [standing?, hq]
  rfl

theorem standing?_step_of_getElem? (hq : (c.step act).procs[i]? = some q) :
    (c.step act).standing? i = q.standing? c.options.2 := by
  rw [standing?_of_getElem? hq, options_step]

theorem standing?_of_length_le (h : c.procs.length ≤ i) : c.standing? i = none := by
  rw [standing?, List.getElem?_eq_none h]
  rfl

theorem lt_length_of_standing {s : Standing} (h : c.standing? i = some s) :
    i < c.procs.length := by
  by_contra hlength
  rw [standing?_of_length_le (Nat.le_of_not_lt hlength)] at h
  cases h

/-- Whoever makes an attempt calls for it, wherever the call is. -/
theorem exists_caller {election : Election} {a : Store.Access} {attempt : Election.Attempt a}
    {flight : Flight a} (h : c.standing? i = some ⟨election, attempt, flight⟩) :
    ∃ caller, c.procs[i]? = some (.awaiting caller flight) ∧
      c.callOf caller = attempt.call election ∧
      ∀ flight', (Proc.awaiting caller flight').standing? c.options.2 =
        some ⟨election, attempt, flight'⟩ := by
  obtain ⟨q, hq, hstanding⟩ := Option.bind_eq_some_iff.1 h
  cases q with
  | awaiting caller flight =>
    cases caller with
    | election election attempt =>
      cases hstanding
      exact ⟨_, hq, rfl, fun _ => rfl⟩
    | broker b point =>
      cases point with
      | electing now attempt =>
        cases hstanding
        exact ⟨_, hq, rfl, fun _ => rfl⟩
      | opening => cases hstanding
    | start | commit | beat | client => cases hstanding
  | loop | registering | renewing | ended => cases hstanding

theorem standing?_looping (brokers : BrokerId → Broker.Options) (e : EngineId) (epoch : Nat)
    (next : Engine.LoopStep) : (c.looping e epoch next).standing? brokers = none := by
  cases next <;> rfl

theorem standingStep_of_none (hold : c.standing? i = none) (h : (c.step act).standing? i = none) :
    c.StandingStep act i := .stays (h.trans hold.symm)

theorem standing?_land {election : Election} {a : Store.Access} {attempt : Election.Attempt a}
    {failure : Option Store.Error}
    (hold : c.standing? i = some ⟨election, attempt, .sent failure⟩) :
    (c.step (.land i)).standing? i = some ⟨election, attempt,
      .landed (c.memory.finish ⟨attempt.call election, failure⟩).1⟩ := by
  obtain ⟨caller, hq, hcall, hstanding⟩ := exists_caller hold
  have hq' : (c.step (.land i)).procs[i]? = some (.awaiting caller
      (.landed (c.memory.finish ⟨c.callOf caller, failure⟩).1)) := by
    rw [step, land, hq]
    exact List.getElem?_set_self (lt_length_of_standing hold)
  rw [standing?_step_of_getElem? hq', hstanding, hcall]

theorem standingStep_landed {a : Store.Access} {caller : Caller a} {failure : Option Store.Error}
    (hold : c.procs[i]? = some (.awaiting caller (.sent failure)))
    (hq : (c.step (.land i)).procs[i]? = some (.awaiting caller
      (.landed (c.memory.finish ⟨c.callOf caller, failure⟩).1))) : c.StandingStep (.land i) i := by
  have hbefore := standing?_of_getElem? hold
  have hafter := standing?_step_of_getElem? hq
  cases caller with
  | election election attempt => exact .lands rfl hbefore hafter
  | broker b point =>
    cases point with
    | electing now attempt => exact .lands rfl hbefore hafter
    | opening => exact standingStep_of_none hbefore hafter
  | start | commit | beat | client => exact standingStep_of_none hbefore hafter

theorem standing?_openEngine (brokers : BrokerId → Broker.Options) (b : BrokerId)
    (o : Broker.Options) (now : Millis) (move : Engine × Engine.Startup.Progress) :
    (c.brokering b (Broker.openEngine o now move).2).standing? brokers = none := by
  obtain ⟨engine, result | point⟩ := move
  · cases result <;> rfl
  · rfl

/-- The attempt goes on with its answer, or is decided. -/
theorem standing?_resumed {election : Election} {a : Store.Access} {attempt : Election.Attempt a}
    {caller : Caller a} {answer : Store.Answer a}
    (h : (Proc.awaiting caller (.landed answer)).standing? c.options.2 =
      some ⟨election, attempt, .landed answer⟩) :
    (c.resumed caller answer).standing? c.options.2 =
      match election.resume attempt answer with
      | .waiting attempt' => some ⟨election, attempt', .sent c.memory.options.failure⟩
      | .done _ => none := by
  cases caller with
  | election election attempt =>
    cases h
    rw [resumed]
    cases election.resume attempt answer <;> rfl
  | broker b point =>
    cases point with
    | electing now attempt =>
      cases h
      show (c.resumed _ answer).standing? _ =
        match (c.seats b).options.election.resume attempt answer with
        | .waiting attempt' =>
          some ⟨(c.seats b).options.election, attempt', .sent c.memory.options.failure⟩
        | .done _ => none
      rw [resumed, Broker.resumeStart]
      cases (c.seats b).options.election.resume attempt answer with
      | waiting attempt' => rfl
      | done outcome =>
        cases outcome with
        | error cause => rfl
        | ok result =>
          cases result with
          | elected | alreadyLeader => exact standing?_openEngine _ _ _ _ _
          | otherLeader | conflict => rfl
    | opening => cases h
  | start | commit | beat | client => cases h

theorem standing?_proceed {election : Election} {a : Store.Access} {attempt : Election.Attempt a}
    {answer : Store.Answer a} (hold : c.standing? i = some ⟨election, attempt, .landed answer⟩) :
    (c.step (.proceed i)).standing? i =
      match election.resume attempt answer with
      | .waiting attempt' => some ⟨election, attempt', .sent c.memory.options.failure⟩
      | .done _ => none := by
  obtain ⟨caller, hq, -, hstanding⟩ := exists_caller hold
  have hlength := lt_length_of_standing hold
  have hq' : (c.step (.proceed i)).procs[i]? = some (c.resumed caller answer) := by
    rw [step, procs_proceed hq, List.getElem?_append_left (List.length_set.symm ▸ hlength)]
    exact List.getElem?_set_self hlength
  rw [standing?_step_of_getElem? hq', standing?_resumed (hstanding _)]

theorem standingStep_proceed {election : Election} {a : Store.Access} {attempt : Election.Attempt a}
    {answer : Store.Answer a} (hold : c.standing? i = some ⟨election, attempt, .landed answer⟩) :
    c.StandingStep (.proceed i) i := by
  have hafter := standing?_proceed hold
  cases hresume : election.resume attempt answer with
  | waiting attempt' =>
    rw [hresume] at hafter
    exact .goesOn rfl hold hresume hafter
  | done outcome =>
    rw [hresume] at hafter
    exact .ends rfl hold hresume hafter

theorem standingStep_onward (hold : c.procs[i]? = some p)
    (hq : (c.step (.proceed i)).procs[i]? = some (c.onward p)) :
    c.StandingStep (.proceed i) i := by
  have hbefore := standing?_of_getElem? hold
  have hafter := standing?_step_of_getElem? hq
  cases p with
  | awaiting caller flight =>
    cases flight with
    | sent failure => exact .stays (hafter.trans hbefore.symm)
    | landed answer =>
      cases caller with
      | election election attempt => exact standingStep_proceed hbefore
      | broker b point =>
        cases point with
        | electing now attempt => exact standingStep_proceed hbefore
        | opening now point =>
          exact standingStep_of_none hbefore (hafter.trans (standing?_openEngine _ _ _ _ _))
      | start e point =>
        refine standingStep_of_none hbefore (hafter.trans ?_)
        rw [onward, resumed]
        split <;> rfl
      | commit e epoch point =>
        exact standingStep_of_none hbefore (hafter.trans (standing?_looping _ _ _ _))
      | beat b own =>
        refine standingStep_of_none hbefore (hafter.trans ?_)
        rw [onward, resumed]
        split <;> rfl
      | client call => exact standingStep_of_none hbefore hafter
  | loop e epoch pause =>
    exact standingStep_of_none hbefore (hafter.trans (standing?_looping _ _ _ _))
  | registering b ticket =>
    refine standingStep_of_none hbefore (hafter.trans ?_)
    rw [onward]
    split <;> rfl
  | renewing b own ticket =>
    refine standingStep_of_none hbefore (hafter.trans ?_)
    rw [onward]
    split <;> rfl
  | ended => exact standingStep_of_none hbefore hafter

theorem standing?_newcomer (brokers : BrokerId → Broker.Options) (hq : q ∈ c.newcomers act) :
    q.standing? brokers = none ∨ ∃ election now,
      q.standing? brokers = some ⟨election, .looking now, .sent c.memory.options.failure⟩ := by
  rcases newcomer_cases hq with rfl | ⟨e, epoch, rfl⟩ | ⟨a, caller, rfl, hbegins⟩
  · exact .inl rfl
  · exact .inl rfl
  · cases hbegins with
    | election election now => exact .inr ⟨election, now, rfl⟩
    | broker b now => exact .inr ⟨_, now, rfl⟩
    | start | beat | client => exact .inl rfl

/-- **What a step makes of an attempt.** -/
theorem standingStep (act : Act) (i : ProcId) : c.StandingStep act i := by
  cases hq : (c.step act).procs[i]? with
  | none =>
    have hlength := List.getElem?_eq_none_iff.1 hq
    exact standingStep_of_none (standing?_of_length_le (Nat.le_trans (length_le_step act) hlength))
      (standing?_of_length_le hlength)
  | some q =>
    cases procStep hq with
    | stays hold =>
      exact .stays ((standing?_step_of_getElem? hq).trans (standing?_of_getElem? hold).symm)
    | lands hact hold hlanded =>
      subst hact hlanded
      exact standingStep_landed hold hq
    | goesOn hact hold honward =>
      subst hact honward
      exact standingStep_onward hold hq
    | comes hnew hmem =>
      have hafter := standing?_step_of_getElem? hq
      rcases standing?_newcomer c.options.2 hmem with hnone | ⟨election, now, hsome⟩
      · exact standingStep_of_none (standing?_of_length_le hnew) (hafter.trans hnone)
      · exact .begins hnew (hafter.trans hsome)

/-! ## It never goes back -/

theorem resume_put (election : Election) (attempt : Election.Attempt .put)
    (answer : Store.Answer .put) :
    election.resume attempt answer = .done (Election.verdict answer) := by
  cases attempt <;> rfl

/-- A look is followed by a put, if by anything. -/
theorem rank_of_waiting {election : Election} {a a' : Store.Access} {attempt : Election.Attempt a}
    {answer : Store.Answer a} {attempt' : Election.Attempt a'}
    (h : election.resume attempt answer = .waiting attempt') (failure : Option Store.Error) :
    Standing.rank ⟨election, attempt, .landed answer⟩ = 2 ∧
      Standing.rank ⟨election, attempt', .sent failure⟩ = 3 := by
  have hconsider {d : Document} {token : Store.Token} {now : Millis}
      (hwaiting : election.consider d token now = .waiting attempt') :
      Standing.rank ⟨election, attempt', .sent failure⟩ = 3 := by
    revert hwaiting
    rw [Election.consider]
    split
    · split
      · split <;> exact nofun
      · exact fun hwaiting => by cases hwaiting; rfl
    · exact fun hwaiting => by cases hwaiting; rfl
  revert h
  fun_cases Election.resume election attempt answer
  case case2 =>
    intro h
    cases h
    exact ⟨rfl, rfl⟩
  case case4 => exact fun h => ⟨rfl, hconsider h⟩
  all_goals exact nofun

theorem course_of_standing {s : Standing} (h : c.standing? i = some s) : c.course i = s.rank := by
  rw [course, h]

theorem course_of_none (h : c.standing? i = none) : c.course i = 0 ∨ c.course i = 5 := by
  rw [course, h]
  dsimp only
  split
  · exact .inr rfl
  · exact .inl rfl

theorem course_of_ended {s : Standing} (hold : c.standing? i = some s)
    (h : (c.step act).standing? i = none) : (c.step act).course i = 5 := by
  rw [course, h]
  exact if_pos (Nat.lt_of_lt_of_le (lt_length_of_standing hold) (length_le_step act))

theorem rank_le (s : Standing) : s.rank ≤ 4 := by
  unfold Standing.rank
  split <;> decide

/-- **An attempt never goes back**, and as long as it does not go on it is what it was. -/
theorem course_step (act : Act) (i : ProcId) :
    c.course i < (c.step act).course i ∨
      (c.step act).standing? i = c.standing? i ∧ c.course i ≤ (c.step act).course i := by
  cases standingStep (c := c) act i with
  | stays h =>
    refine .inr ⟨h, ?_⟩
    have hlength := length_le_step (c := c) act
    rw [course, course, h]
    cases c.standing? i with
    | some s => exact Nat.le_refl _
    | none =>
      dsimp only
      split
      next hthere => exact Nat.le_of_eq (if_pos (Nat.lt_of_lt_of_le hthere hlength)).symm
      · exact Nat.zero_le _
  | begins hold h =>
    refine .inl ?_
    rw [course_of_standing h, course, standing?_of_length_le hold]
    dsimp only
    rw [if_neg (Nat.not_lt_of_le hold)]
    exact Nat.zero_lt_one
  | @lands election a attempt failure _ hold h =>
    refine .inl ?_
    rw [course_of_standing hold, course_of_standing h]
    cases attempt with
    | looking => exact Nat.lt_succ_self 1
    | founding | takingOver => exact Nat.lt_succ_self 3
  | goesOn _ hold hresume h =>
    obtain ⟨hbefore, hafter⟩ := rank_of_waiting hresume c.memory.options.failure
    refine .inl ?_
    rw [course_of_standing hold, course_of_standing h, hbefore, hafter]
    exact Nat.lt_succ_self 2
  | ends _ hold _ h =>
    refine .inl ?_
    rw [course_of_standing hold, course_of_ended hold h]
    exact Nat.lt_succ_of_le (rank_le _)

theorem course_le_step (act : Act) (i : ProcId) : c.course i ≤ (c.step act).course i := by
  rcases course_step (c := c) act i with hlt | ⟨-, hle⟩
  · exact Nat.le_of_lt hlt
  · exact hle

theorem course_le_run (acts : List Act) (i : ProcId) : c.course i ≤ (c.run acts).course i := by
  induction acts generalizing c with
  | nil => exact Nat.le_refl _
  | cons act acts ih => exact Nat.le_trans (course_le_step act i) ih

/-! ## The moments of an attempt -/

variable {start : Cluster} {acts : List Act} {m m' : Moment} {election : Election} {now : Millis}
  {found : Option Store.Memory.Entry}

theorem Moment.Looks.after (h : m.Looks i election now found) :
    m.after.standing? i =
      some ⟨election, .looking now, .landed (.ok (found.map Store.Memory.Entry.toObject))⟩ ∧
      m.after.memory = m.before.memory := by
  obtain ⟨caller, hq, hcall, -⟩ := exists_caller h.stands
  constructor
  · rw [Moment.after, h.act, standing?_land h.stands, ← h.found]
    rfl
  · rw [Moment.after, h.act, step, land, hq]
    show (m.before.memory.finish ⟨m.before.callOf caller, none⟩).2 = m.before.memory
    rw [hcall]
    rfl

theorem Moment.Lands.after {attempt : Election.Attempt .put} {answer : Store.Answer .put}
    (h : m.Lands i election attempt answer) :
    m.after.standing? i = some ⟨election, attempt, .landed answer⟩ := by
  obtain ⟨failure, hstands, hanswer⟩ := h.lands
  rw [Moment.after, h.act, standing?_land hstands, hanswer]

theorem Moment.Looks.course (h : m.Looks i election now found) :
    m.before.course i = 1 ∧ m.after.course i = 2 :=
  ⟨course_of_standing h.stands, course_of_standing h.after.1⟩

theorem rank_put {attempt : Election.Attempt .put} (flight : Flight .put) :
    3 ≤ Standing.rank ⟨election, attempt, flight⟩ := by
  cases attempt <;> cases flight <;> exact Nat.le_of_ble_eq_true rfl

theorem Moment.Lands.course {attempt : Election.Attempt .put} {answer : Store.Answer .put}
    (h : m.Lands i election attempt answer) : m.before.course i = 3 ∧ m.after.course i = 4 := by
  obtain ⟨failure, hstands, -⟩ := h.lands
  refine ⟨(course_of_standing hstands).trans ?_, (course_of_standing h.after).trans ?_⟩
  all_goals cases attempt <;> rfl

theorem Moment.Decides.after {outcome : Election.Outcome} (h : m.Decides i election outcome) :
    m.after.course i = 5 := by
  obtain ⟨a, attempt, answer, hstands, hdone⟩ := h.decides
  rw [Moment.after, h.act]
  refine course_of_ended hstands ?_
  rw [standing?_proceed hstands, hdone]

theorem course_le_of_sublist (h : [m, m'].Sublist (start.trail acts)) (i : ProcId) :
    m.after.course i ≤ m'.before.course i :=
  rel_of_sublist (R := fun c c' => c.course i ≤ c'.course i) (fun _ acts => course_le_run acts i) h

/-- An attempt passes each point of its course once. -/
theorem eq_of_course {n : Nat} (hm : m ∈ start.trail acts) (hm' : m' ∈ start.trail acts)
    (hbefore : m.before.course i = n) (hafter : n < m.after.course i)
    (hbefore' : m'.before.course i = n) (hafter' : n < m'.after.course i) : m = m' := by
  rcases eq_or_sublist_trail hm hm' with heq | horder | horder
  · exact heq
  · have := course_le_of_sublist horder i
    omega
  · have := course_le_of_sublist horder i
    omega

/-! ## What an attempt has been through -/

inductive Told (moments : List Moment) (i : ProcId) : Standing → Prop where
  | begun {election : Election} {now : Millis} {failure : Option Store.Error} :
    Told moments i ⟨election, .looking now, .sent failure⟩
  | failed {election : Election} {now : Millis} {cause : Store.Error} :
    Told moments i ⟨election, .looking now, .landed (.error cause)⟩
  | looked {l : Moment} {election : Election} {now : Millis} {found : Option Store.Memory.Entry}
    {answer : Store.Answer .read} (hl : l ∈ moments) (looks : l.Looks i election now found)
    (hanswer : answer = .ok (found.map Store.Memory.Entry.toObject)) :
    Told moments i ⟨election, .looking now, .landed answer⟩
  | aimed {l : Moment} {election : Election} {now : Millis} {found : Option Store.Memory.Entry}
    {attempt : Election.Attempt .put} {failure : Option Store.Error} (hl : l ∈ moments)
    (looks : l.Looks i election now found) (aims : Aims election now found attempt) :
    Told moments i ⟨election, attempt, .sent failure⟩
  | put {l r : Moment} {election : Election} {now : Millis} {found : Option Store.Memory.Entry}
    {attempt : Election.Attempt .put} {answer : Store.Answer .put}
    (order : [l, r].Sublist moments) (looks : l.Looks i election now found)
    (aims : Aims election now found attempt) (lands : r.Lands i election attempt answer) :
    Told moments i ⟨election, attempt, .landed answer⟩

theorem Told.mono {s : Standing} {moments moments' : List Moment} (h : Told moments i s)
    (hsub : moments.Sublist moments') : Told moments' i s := by
  cases h with
  | begun => exact .begun
  | failed => exact .failed
  | looked hl looks hanswer => exact .looked (hsub.subset hl) looks hanswer
  | aimed hl looks aims => exact .aimed (hsub.subset hl) looks aims
  | put order looks aims lands => exact .put (order.trans hsub) looks aims lands

/-- Nobody waits for a look a second time. -/
theorem resume_ne_looking {a : Store.Access} {attempt : Election.Attempt a}
    {answer : Store.Answer a} {attempt' : Election.Attempt .read} :
    election.resume attempt answer ≠ .waiting attempt' := by
  intro h
  have hrank := (rank_of_waiting h none).2
  cases attempt' with
  | looking => cases hrank

theorem told_step {moments : List Moment} {s : Standing}
    (ih : ∀ s, c.standing? i = some s → Told moments i s)
    (h : (c.step act).standing? i = some s) : Told (moments ++ [⟨c, act⟩]) i s := by
  have hsub : moments.Sublist (moments ++ [⟨c, act⟩]) := List.sublist_append_left _ _
  have hlast : (⟨c, act⟩ : Moment) ∈ moments ++ [⟨c, act⟩] := List.mem_concat_self
  cases standingStep (c := c) act i with
  | stays hsame => exact (ih s (hsame.symm.trans h)).mono hsub
  | begins _ hnew =>
    cases hnew.symm.trans h
    exact .begun
  | @lands election a attempt failure hact hold hnew =>
    cases hnew.symm.trans h
    cases ih _ hold with
    | begun =>
      cases failure with
      | none => exact .looked hlast ⟨hact, hold, rfl⟩ rfl
      | some cause => exact .failed
    | aimed hl looks aims =>
      have lands : Moment.Lands ⟨c, act⟩ i election _ _ := ⟨hact, failure, hold, rfl⟩
      have order := (List.singleton_sublist.2 hl).append (List.Sublist.refl [⟨c, act⟩])
      exact .put order looks aims lands
  | @goesOn election a a' attempt answer attempt' hact hold hresume hnew =>
    cases hnew.symm.trans h
    cases a' with
    | read => exact absurd hresume resume_ne_looking
    | put =>
      cases ih _ hold with
      | failed => cases hresume
      | looked hl looks hanswer =>
        subst hanswer
        exact .aimed (hsub.subset hl) looks hresume
      | put order looks aims lands =>
        rw [resume_put] at hresume
        cases hresume
  | ends _ _ _ hnew => cases hnew.symm.trans h

theorem standing?_of_procs_eq (h : c.procs = []) : c.standing? i = none :=
  standing?_of_length_le (Nat.le_trans (Nat.le_of_eq (congrArg List.length h)) i.zero_le)

/-- **What is known of an attempt** at any point of a run. -/
theorem told (hstart : start.procs = []) {s : Standing}
    (h : (start.run acts).standing? i = some s) : Told (start.trail acts) i s := by
  induction acts using List.reverseRecOn generalizing s with
  | nil =>
    cases (standing?_of_procs_eq hstart).symm.trans h
  | append_singleton acts act ih =>
    rw [run_concat] at h
    rw [trail_concat]
    exact told_step (fun s => ih) h

/-- Where no failures are injected, no call is doomed. -/
theorem failure_eq_none (hstart : start.procs = [])
    (hcalm : ∀ m ∈ start.trail acts, m.before.memory.options.failure = none)
    {a : Store.Access} {attempt : Election.Attempt a} {failure : Option Store.Error}
    (h : (start.run acts).standing? i = some ⟨election, attempt, .sent failure⟩) :
    failure = none := by
  induction acts using List.reverseRecOn generalizing election a attempt failure with
  | nil =>
    cases (standing?_of_procs_eq hstart).symm.trans h
  | append_singleton acts act ih =>
    rw [run_concat] at h
    have hnow := hcalm _ (mem_trail_concat.2 (.inr rfl))
    have hbefore := fun m hm => hcalm m (mem_trail_concat.2 (.inl hm))
    cases standingStep (c := start.run acts) act i with
    | stays hsame => exact ih hbefore (hsame.symm.trans h)
    | begins _ hnew =>
      cases hnew.symm.trans h
      exact hnow
    | lands _ _ hnew => cases hnew.symm.trans h
    | goesOn _ _ _ hnew =>
      cases hnew.symm.trans h
      exact hnow
    | ends _ _ _ hnew => cases hnew.symm.trans h

end LeaseQueue.Cluster
