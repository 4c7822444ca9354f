import LeaseQueue.Proofs.Cluster.Trails
import LeaseQueue.Proofs.Store.Ages

/-!
# The store in the course of a run

The store changes when a call takes effect, and an object only when a put of it comes through:

  `m.before.memory.Ages m.after.memory`
  `m.after.memory.entry? key = m.before.memory.entry? key` unless some process `Stores key` at `m`

So if an object is not what it was, somebody has stored it in between.
-/

namespace LeaseQueue.Cluster

open Store.Memory (IsNumbered)

/-- A put of the process takes effect. -/
structure Moment.Puts (m : Moment) (i : ProcId) (caller : Caller .put) (token : Store.Token) :
    Prop where
  act : m.act = .land i
  lands : ∃ failure, m.before.procs[i]? = some (.awaiting caller (.sent failure)) ∧
    (m.before.memory.finish ⟨m.before.callOf caller, failure⟩).1 = .ok token

/-- A process stores an object under the key. -/
def Moment.Stores (m : Moment) (key : String) (i : ProcId) : Prop :=
  ∃ caller token, m.Puts i caller token ∧ (m.before.callOf caller).key = key

variable {c : Cluster} {acts : List Act} {m m' : Moment} {key : String} {i : ProcId}

theorem memory_step_of_ne_land {act : Act} (h : ∀ i, act ≠ .land i) :
    (c.step act).memory.entries = c.memory.entries ∧
      (c.step act).memory.lastVersion = c.memory.lastVersion := by
  have hbackground := background_step c act h
  exact ⟨congrArg Background.entries hbackground, congrArg Background.lastVersion hbackground⟩

theorem ages_step (act : Act) : c.memory.Ages (c.step act).memory := by
  rcases act.land_or with ⟨i, rfl⟩ | hne
  · rcases land_cases c i with heq | ⟨a, caller, failure, -, heq⟩
    · rw [step, heq]
      exact .refl _
    · rw [step, heq]
      exact Store.Memory.ages_finish c.memory _
  · obtain ⟨hentries, hlast⟩ := memory_step_of_ne_land (c := c) hne
    exact .of_eq hentries hlast

theorem ages_run (acts : List Act) : c.memory.Ages (c.run acts).memory := by
  induction acts generalizing c with
  | nil => exact .refl _
  | cons act acts ih => exact (ages_step act).trans ih

theorem ages_of_sublist (h : [m, m'].Sublist (c.trail acts)) :
    m.after.memory.Ages m'.before.memory :=
  rel_of_sublist (R := fun c c' => c.memory.Ages c'.memory) (fun _ => ages_run) h

theorem isNumbered_of_mem (h : c.memory.IsNumbered) (hm : m ∈ c.trail acts) :
    m.before.memory.IsNumbered :=
  forall_trail (P := fun c => c.memory.IsNumbered) (fun acts => h.ages (ages_run acts)) m hm

/-- A put that came through has stored what it was about, where it was admitted. -/
theorem Moment.Puts.stored {caller : Caller .put} {token : Store.Token} (h : m.Puts i caller token) :
    m.before.memory.Admits (m.before.callOf caller) ∧
      (.ok token, m.after.memory) = m.before.memory.store (m.before.callOf caller).key
        (Store.Memory.payload (m.before.callOf caller)) := by
  obtain ⟨failure, hq, hok⟩ := h.lands
  have hafter : m.after.memory =
      (m.before.memory.finish ⟨m.before.callOf caller, failure⟩).2 := by
    rw [Moment.after, h.act, step, land, hq]
    rfl
  rcases m.before.memory.finish_put (m.before.callOf caller) failure with
    ⟨cause, heq⟩ | ⟨hadmits, heq⟩
  · rw [heq] at hok
    cases hok
  · refine ⟨hadmits, ?_⟩
    rw [hafter, ← hok, heq]

/-- What is stored under a key after a put of it. -/
theorem Moment.Puts.lookup {caller : Caller .put} {token : Store.Token}
    (h : m.Puts i caller token) :
    token = toString (m.before.memory.lastVersion + 1) ∧
      m.after.memory.lastVersion = m.before.memory.lastVersion + 1 ∧
      ∀ k, m.after.memory.entry? k = if k = (m.before.callOf caller).key
        then some ⟨Store.Memory.payload (m.before.callOf caller), m.before.memory.lastVersion + 1⟩
        else m.before.memory.entry? k := by
  obtain ⟨-, hstored⟩ := h.stored
  have htoken := congrArg Prod.fst hstored
  have hmemory : m.after.memory = _ := congrArg Prod.snd hstored
  refine ⟨Except.ok.inj htoken, by rw [hmemory]; rfl, fun k => ?_⟩
  rw [hmemory, Store.Memory.entry?_store]

theorem Moment.stores_of_ne (h : m.after.memory.entry? key ≠ m.before.memory.entry? key) :
    ∃ i, m.Stores key i := by
  obtain ⟨c, act⟩ := m
  rcases act.land_or with ⟨i, rfl⟩ | hne
  · refine ⟨i, ?_⟩
    rcases land_cases c i with heq | ⟨a, caller, failure, hq, heq⟩
    · exact absurd (congrArg (fun c => c.memory.entry? key) heq) h
    · cases a with
      | read =>
        have hread : (c.memory.finish ⟨c.callOf caller, failure⟩).2 = c.memory := by
          cases c.callOf caller with
          | read k => exact (c.memory.finish_read k failure).1
        have hmemory : (c.land i).memory = c.memory := (congrArg Cluster.memory heq).trans hread
        exact absurd (congrArg (fun m => m.entry? key) hmemory) h
      | put =>
        rcases c.memory.finish_put (c.callOf caller) failure with ⟨cause, hfail⟩ | ⟨-, hput⟩
        · have hmemory : (c.land i).memory = c.memory :=
            (congrArg Cluster.memory heq).trans (congrArg Prod.snd hfail)
          exact absurd (congrArg (fun m => m.entry? key) hmemory) h
        · have hputs : Moment.Puts ⟨c, .land i⟩ i caller (toString (c.memory.lastVersion + 1)) :=
            ⟨rfl, failure, hq, congrArg Prod.fst hput⟩
          refine ⟨caller, _, hputs, ?_⟩
          by_contra hkey
          exact h ((hputs.lookup.2.2 key).trans (if_neg (Ne.symm hkey)))
  · obtain ⟨hentries, -⟩ := memory_step_of_ne_land (c := c) hne
    refine absurd ?_ h
    show (c.step act).memory.entries.lookup key = c.memory.entries.lookup key
    rw [hentries]

/-- **If an object is not what it was, somebody has stored it in between.** -/
theorem exists_stores_of_ne (h : (c.run acts).memory.entry? key ≠ c.memory.entry? key) :
    ∃ m ∈ c.trail acts, ∃ i, m.Stores key i := by
  have hstep (m : Moment) (hafter : m.after.memory.entry? key ≠ c.memory.entry? key) :
      m.before.memory.entry? key ≠ c.memory.entry? key ∨ ∃ i, m.Stores key i := by
    by_cases hsame : m.after.memory.entry? key = m.before.memory.entry? key
    · exact .inl (hsame ▸ hafter)
    · exact .inr (Moment.stores_of_ne hsame)
  rcases exists_moment (P := fun c' => c'.memory.entry? key ≠ c.memory.entry? key) hstep h with
    hfirst | hlater
  · exact absurd rfl hfirst
  · exact hlater

end LeaseQueue.Cluster
