import ShardedKV.MapReduce.Execution

/-!
# Executions that take turns

The executions of a job that are under way at one time.  If no two of them are of the same task,
then a step of one leaves alone what the others have written and what they will read.
-/

namespace ShardedKV.MapReduce

variable {job : Job} {files files' : Files} {execution next other : Execution}

/-! ## What a step leaves alone -/

/-- The task whose results are in the file. -/
def FileName.task : FileName → Option (Kind × Nat)
  | temp _ => none
  | intermediate mapTask _ => some (.map, mapTask)
  | out reduceTask => some (.reduce, reduceTask)

theorem Execution.task_of_touches {name : FileName} {task : Kind × Nat} (result : name.task = some task)
    (touches : execution.touches files name) : execution.task = task := by
  cases name with
  | temp inode => cases result
  | intermediate mapTask reduceTask =>
    cases result
    exact task_of_touches_intermediate touches
  | out reduceTask =>
    cases result
    exact task_of_touches_out touches

theorem Execution.temp_of_touches {inode : Nat} (touches : execution.touches files (.temp inode)) :
    inode = files.contents.length ∨ execution.temp = some inode := by
  cases execution <;> simp_all [Execution.touches, Execution.temp]

theorem Underway.temp_lt (underway : Underway job files execution) {inode : Nat}
    (temp : execution.temp = some inode) : inode < files.contents.length := by
  cases underway with
  | naming _ _ named =>
    cases temp
    exact files.valid _ _ named
  | _ => cases temp

theorem Underway.keeps {touched : FileName → Prop} (underway : Underway job files execution)
    (keeps : files.Keeps touched files') (apart : ∀ name, execution.uses name → ¬ touched name) :
    Underway job files' execution := by
  cases underway with
  | creating left written => exact .creating left (written.keeps keeps fun _ _ => apart _ (Or.inl rfl))
  | naming left written named empty =>
    obtain ⟨directory, bytes⟩ := keeps _ (apart (.temp _) rfl)
    exact .naming left (written.keeps keeps fun _ _ => apart _ (Or.inl rfl)) (directory.trans named)
      ((bytes _ named).trans empty)
  | @encoding task bucket file seen records intermediate left written named bytes atEnd =>
    obtain ⟨directory, same⟩ := keeps (.intermediate task bucket) (apart _ (Or.inl rfl))
    exact .encoding left (written.keeps keeps fun _ _ => apart _ (Or.inl rfl)) (directory.trans named)
      ((same _ named).trans bytes) atEnd
  | opening within read => exact .opening within read
  | @decoding task i file kva seen unseen within split read named atSeen =>
    obtain ⟨directory, _⟩ := keeps (.intermediate i task) (apart _ (Or.inr rfl))
    exact .decoding within split read (directory.trans named) atSeen
  | output read => exact .output read
  | @writing task file seen lines split named bytes atEnd =>
    obtain ⟨directory, same⟩ := keeps (.out task) (apart _ rfl)
    exact .writing split (directory.trans named) ((same _ named).trans bytes) atEnd
  | finished complete =>
    refine .finished (complete.keeps keeps ?_ ?_)
    · rintro mapTask reduceTask same
      exact apart _ (Or.inl same)
    · rintro reduceTask same
      exact apart _ same

/-! ## Several executions -/

/-- The executions are of different tasks and have different temporary files. -/
structure Execution.Apart (execution other : Execution) : Prop where
  task : execution.task ≠ other.task
  temp : ∀ inode, execution.temp = some inode → other.temp ≠ some inode

theorem Execution.Apart.symm (apart : execution.Apart other) : other.Apart execution :=
  ⟨apart.task.symm, fun inode here there => apart.temp inode there here⟩

/-- The executions that are under way when some tasks are done. -/
structure Pool (job : Job) (files : Files) (done : Kind × Nat → Prop) (executions : List Execution) : Prop where
  roundTrips : job.RoundTrips
  has : ∀ execution ∈ executions, job.Has execution.task
  underway : ∀ execution ∈ executions, Underway job files execution
  apart : executions.Pairwise Execution.Apart
  undone : ∀ execution ∈ executions, ¬ done execution.task
  inputs : ∀ execution ∈ executions, execution.task.1 = .reduce → ∀ mapTask < job.nMap, done (.map, mapTask)
  complete : ∀ task, done task → job.Complete files task

namespace Pool

variable {done : Kind × Nat → Prop} {rest executions : List Execution}

theorem perm (pool : Pool job files done rest) (same : rest.Perm executions) : Pool job files done executions where
  roundTrips := pool.roundTrips
  has := fun execution member => pool.has execution (same.mem_iff.mpr member)
  underway := fun execution member => pool.underway execution (same.mem_iff.mpr member)
  apart := (same.pairwise_iff Execution.Apart.symm).mp pool.apart
  undone := fun execution member => pool.undone execution (same.mem_iff.mpr member)
  inputs := fun execution member => pool.inputs execution (same.mem_iff.mpr member)
  complete := pool.complete

theorem sublist (pool : Pool job files done executions) (some : rest.Sublist executions) :
    Pool job files done rest where
  roundTrips := pool.roundTrips
  has := fun execution member => pool.has execution (some.subset member)
  underway := fun execution member => pool.underway execution (some.subset member)
  apart := pool.apart.sublist some
  undone := fun execution member => pool.undone execution (some.subset member)
  inputs := fun execution member => pool.inputs execution (some.subset member)
  complete := pool.complete

theorem leave {done' : Kind × Nat → Prop} (pool : Pool job files done (execution :: rest))
    (grows : ∀ task, done task → done' task)
    (only : ∀ task, done' task → done task ∨ task = execution.task ∧ job.Complete files task) :
    Pool job files done' rest := by
  obtain ⟨away, apart⟩ := List.pairwise_cons.mp pool.apart
  refine ⟨pool.roundTrips, fun other member => pool.has other (.tail _ member),
    fun other member => pool.underway other (.tail _ member), apart, ?_, ?_, ?_⟩
  · intro other member isDone
    rcases only _ isDone with before | ⟨same, _⟩
    · exact pool.undone other (.tail _ member) before
    · exact (away other member).task same.symm
  · exact fun other member reducing mapTask less => grows _ (pool.inputs other (.tail _ member) reducing mapTask less)
  · intro task isDone
    rcases only task isDone with before | ⟨_, complete⟩
    · exact pool.complete task before
    · exact complete

theorem join (pool : Pool job files done rest) (has : job.Has execution.task) (underway : Underway job files execution)
    (nothing : execution.temp = none) (free : ∀ other ∈ rest, other.task ≠ execution.task)
    (undone : ¬ done execution.task)
    (inputs : execution.task.1 = .reduce → ∀ mapTask < job.nMap, done (.map, mapTask)) :
    Pool job files done (execution :: rest) where
  roundTrips := pool.roundTrips
  has := List.forall_mem_cons.mpr ⟨has, pool.has⟩
  underway := List.forall_mem_cons.mpr ⟨underway, pool.underway⟩
  apart := List.pairwise_cons.mpr
    ⟨fun other member => ⟨(free other member).symm, by simp [nothing]⟩, pool.apart⟩
  undone := List.forall_mem_cons.mpr ⟨undone, pool.undone⟩
  inputs := List.forall_mem_cons.mpr ⟨inputs, pool.inputs⟩
  complete := pool.complete

variable (pool : Pool job files done (execution :: rest))
include pool

/-- Maps and reduces are never under way together, and a map task writes only its own files. -/
theorem not_touches (member : other ∈ rest) {name : FileName}
    (uses : other.uses name) : ¬ execution.touches files name := by
  intro touches
  have apart := (List.pairwise_cons.mp pool.apart).1 other member
  cases name with
  | temp inode =>
    rcases Execution.temp_of_touches touches with fresh | own
    · -- a new inode is none that another execution has
      have old := (pool.underway other (.tail _ member)).temp_lt uses
      omega
    · exact apart.temp inode own uses
  | intermediate mapTask reduceTask =>
    have mapping := Execution.task_of_touches_intermediate touches
    rcases uses with same | reducing
    · exact apart.task (mapping.trans same.symm)
    · -- whoever reads the file has been begun after the map task was done
      have inside : job.Has (.map, mapTask) := mapping ▸ pool.has execution (.head _)
      have isDone := pool.inputs other (.tail _ member) (by rw [reducing]) mapTask inside
      exact pool.undone execution (.head _) (mapping ▸ isDone)
  | out reduceTask => exact apart.task ((Execution.task_of_touches_out touches).trans uses.symm)

theorem advances (stepped : execution.step job files = some (next, files')) :
    next = execution ∧ files' = files ∨ Advances job files execution next files' := by
  by_cases unfinished : ∀ kind task, execution ≠ .finished kind task
  · refine .inr ?_
    have readable : ∀ reduceTask, execution.task = (.reduce, reduceTask) → job.Readable files reduceTask := by
      intro reduceTask reducing
      have has := pool.has execution (.head _)
      rw [reducing] at has
      refine Job.readable_of_complete pool.roundTrips (fun mapTask less => pool.complete _ ?_) has
      exact pool.inputs execution (.head _) (by rw [reducing]) mapTask less
    obtain ⟨next', files'', stepped', advances⟩ :=
      (pool.underway execution (.head _)).step readable unfinished
    cases stepped.symm.trans stepped'
    exact advances
  · push Not at unfinished
    obtain ⟨kind, task, rfl⟩ := unfinished
    cases stepped
    exact .inl ⟨rfl, rfl⟩

theorem advance (stepped : execution.step job files = some (next, files')) : Pool job files' done (next :: rest) := by
  rcases pool.advances stepped with ⟨rfl, rfl⟩ | advances
  · exact pool
  obtain ⟨away, apart⟩ := List.pairwise_cons.mp pool.apart
  obtain ⟨has, hasRest⟩ := List.forall_mem_cons.mp pool.has
  obtain ⟨_, underway⟩ := List.forall_mem_cons.mp pool.underway
  obtain ⟨undone, undoneRest⟩ := List.forall_mem_cons.mp pool.undone
  obtain ⟨inputs, inputsRest⟩ := List.forall_mem_cons.mp pool.inputs
  rw [← advances.task] at has undone inputs
  refine ⟨pool.roundTrips, List.forall_mem_cons.mpr ⟨has, hasRest⟩,
    List.forall_mem_cons.mpr ⟨advances.underway, ?_⟩, List.pairwise_cons.mpr ⟨?_, apart⟩,
    List.forall_mem_cons.mpr ⟨undone, undoneRest⟩, List.forall_mem_cons.mpr ⟨inputs, inputsRest⟩, ?_⟩
  · exact fun other member => (underway other member).keeps advances.keeps fun _ => pool.not_touches member
  · intro other member
    refine ⟨advances.task ▸ (away other member).task, fun inode temp temp' => ?_⟩
    rcases (Execution.step_spec stepped).2 inode temp with fresh | own
    · have old := (underway other member).temp_lt temp'
      omega
    · exact (away other member).temp inode own temp'
  · intro task isDone
    -- the step is of a task that is not done
    refine advances.complete ?_ (pool.complete task isDone)
    rintro rfl
    exact undone (advances.task ▸ isDone)

theorem directory_advance
    (stepped : execution.step job files = some (next, files')) {name : FileName} {task : Kind × Nat}
    (result : name.task = some task) (isDone : done task) : files'.directory name = files.directory name := by
  rcases pool.advances stepped with ⟨rfl, rfl⟩ | advances
  · rfl
  have untouched : ¬ execution.touches files name := by
    intro touches
    rw [← Execution.task_of_touches result touches] at isDone
    exact pool.undone execution (.head _) isDone
  exact (advances.keeps name untouched).1

end Pool

end ShardedKV.MapReduce
