import Mathlib.Data.List.Nodup

namespace LakeKv

open List

/-! The `tasks` table: one row for each task of a copy or a move, in the order in which the rows were
inserted. -/

/-- A task number as the store hands it out; `text` stands for any other shape. -/
inductive TaskId
  | pair (hi lo : Int)
  | text (s : String)
  deriving DecidableEq, Repr

inductive OpKind
  | copy
  | move
  | retain
  deriving DecidableEq, Repr

inductive TaskRowStatus
  | running
  | ready
  | failed
  | abandoned
  deriving DecidableEq, Repr

structure Prefix where
  modelId : String
  tokenIds : List Int
  deriving DecidableEq, Repr

/-- `TaskRecord`, without the key of the prefix and the times. -/
structure TaskRecord where
  taskId : String
  handleId : String
  op : OpKind
  target : String
  status : TaskRowStatus
  modelId : String
  tokenIds : List Int
  deriving DecidableEq, Repr

def encodeTaskId : TaskId → String
  | .pair hi lo => toString hi ++ ":" ++ toString lo
  | .text s => s

/-- `decode_task_id`; `int` is Python's, `none` where it raises. -/
def decodeTaskId (int : String → Option Int) (s : String) : TaskId :=
  match s.toList.splitOn ':' with
  | [hi, lo] =>
    match int (String.ofList hi), int (String.ofList lo) with
    | some hi, some lo => .pair hi lo
    | _, _ => .text s
  | _ => .text s

/-- One row of the `executemany` of `_upsert_tasks_sync`: a new task gets a row at the end, a known one a
new status. -/
def upsertTask (rows : List TaskRecord) (row : TaskRecord) : List TaskRecord :=
  if rows.any fun r => r.taskId = row.taskId then
    rows.map fun r => if r.taskId = row.taskId then { r with status := row.status } else r
  else rows ++ [row]

def upsertTasks (rows : List TaskRecord) (taskIds : List String) (handleId : String) (op : OpKind) (pre : Prefix)
    (target : String) (status : TaskRowStatus) : List TaskRecord :=
  taskIds.foldl (fun rows tid => upsertTask rows ⟨tid, handleId, op, target, status, pre.modelId, pre.tokenIds⟩) rows

def listRunningTasks (rows : List TaskRecord) : List TaskRecord := rows.filter fun r => r.status = .running

def listTasksByHandle (rows : List TaskRecord) (handleId : String) : List TaskRecord :=
  rows.filter fun r => r.handleId = handleId

def TaskId.Numbered (t : TaskId) : Prop := ∃ hi lo : Nat, t = .pair hi lo

/-- Python's `int` reads back the digits of a natural number. -/
def ReadsDigits (int : String → Option Int) : Prop := ∀ n : Nat, int (toString (n : Int)) = some (n : Int)

section Encoding

variable {int : String → Option Int}

theorem colon_notMem_digits (n : Nat) : ':' ∉ (Nat.repr n).toList := by
  intro mem
  rw [Nat.toList_repr] at mem
  have digit := Nat.isDigit_of_mem_toDigits (by decide) (by decide) mem
  exact absurd digit (by decide)

theorem colon_notMem_toString (z : Int) : ':' ∉ (toString z).toList := by
  cases z with
  | ofNat n => exact colon_notMem_digits n
  | negSucc n =>
    intro mem
    have signed : (toString (Int.negSucc n)).toList = '-' :: (Nat.repr (n + 1)).toList := by
      have text : toString (Int.negSucc n) = "-" ++ Nat.repr (n + 1) := rfl
      rw [text, String.toList_append]
      rfl
    rw [signed, mem_cons] at mem
    rcases mem with sign | digits
    · exact absurd sign (by decide)
    · exact colon_notMem_digits (n + 1) digits

theorem decodeTaskId_pair {hi lo : Int} (readsHi : int (toString hi) = some hi) (readsLo : int (toString lo) = some lo) :
    decodeTaskId int (encodeTaskId (.pair hi lo)) = .pair hi lo := by
  have parts : (encodeTaskId (.pair hi lo)).toList.splitOn ':' = [(toString hi).toList, (toString lo).toList] := by
    have joined : (encodeTaskId (.pair hi lo)).toList =
        [':'].intercalate [(toString hi).toList, (toString lo).toList] := by
      simp [encodeTaskId, List.intercalate]
    rw [joined]
    refine splitOn_intercalate ':' ?_ (by simp)
    intro l mem
    rcases mem_pair.mp mem with rfl | rfl
    · exact colon_notMem_toString hi
    · exact colon_notMem_toString lo
  simp only [decodeTaskId, parts, String.ofList_toList, readsHi, readsLo]

theorem decodeTaskId_encodeTaskId (reads : ReadsDigits int) {t : TaskId} (numbered : t.Numbered) :
    decodeTaskId int (encodeTaskId t) = t := by
  obtain ⟨hi, lo, rfl⟩ := numbered
  exact decodeTaskId_pair (reads hi) (reads lo)

theorem encodeTaskId_inj (reads : ReadsDigits int) {t u : TaskId} (ht : t.Numbered) (hu : u.Numbered)
    (same : encodeTaskId t = encodeTaskId u) : t = u := by
  rw [← decodeTaskId_encodeTaskId reads ht, same, decodeTaskId_encodeTaskId reads hu]

end Encoding

section Rows

variable {rows : List TaskRecord} {handleId target : String} {op : OpKind} {pre : Prefix} {status : TaskRowStatus}

def TaskRecord.marked (ids : List String) (status : TaskRowStatus) (r : TaskRecord) : TaskRecord :=
  if r.taskId ∈ ids then { r with status := status } else r

@[simp] theorem marked_taskId (ids : List String) (r : TaskRecord) : (r.marked ids status).taskId = r.taskId := by
  unfold TaskRecord.marked
  split <;> rfl

@[simp] theorem marked_handleId (ids : List String) (r : TaskRecord) :
    (r.marked ids status).handleId = r.handleId := by
  unfold TaskRecord.marked
  split <;> rfl

variable {row : TaskRecord}

theorem upsertTask_known (known : row.taskId ∈ rows.map TaskRecord.taskId) :
    upsertTask rows row = rows.map (TaskRecord.marked [row.taskId] row.status) := by
  obtain ⟨r, mem, same⟩ := mem_map.mp known
  have found : (rows.any fun r => r.taskId = row.taskId) = true := any_eq_true.mpr ⟨r, mem, by simpa using same⟩
  rw [upsertTask, if_pos found]
  refine map_congr_left fun r _ => ?_
  simp only [TaskRecord.marked, List.mem_singleton]

theorem upsertTask_new (new : row.taskId ∉ rows.map TaskRecord.taskId) : upsertTask rows row = rows ++ [row] := by
  have unknown : ¬ (rows.any fun r => r.taskId = row.taskId) = true := by
    intro found
    obtain ⟨r, mem, same⟩ := any_eq_true.mp found
    exact new (mem_map.mpr ⟨r, mem, by simpa using same⟩)
  rw [upsertTask, if_neg unknown]

variable {ids : List String}

theorem upsertTasks_known (known : ∀ t ∈ ids, t ∈ rows.map TaskRecord.taskId) :
    upsertTasks rows ids handleId op pre target status = rows.map (TaskRecord.marked ids status) := by
  unfold upsertTasks
  induction ids generalizing rows with
  | nil =>
    rw [foldl_nil]
    conv_lhs => rw [← map_id rows]
    refine map_congr_left fun r _ => ?_
    simp only [TaskRecord.marked, not_mem_nil, if_false, id_eq]
  | cons t ids ih =>
    rw [foldl_cons, upsertTask_known (known t mem_cons_self)]
    have kept : (rows.map (TaskRecord.marked [t] status)).map TaskRecord.taskId = rows.map TaskRecord.taskId := by
      rw [map_map]
      exact map_congr_left fun r _ => marked_taskId [t] r
    rw [ih fun u mem => by rw [kept]; exact known u (mem_cons_of_mem t mem), map_map]
    refine map_congr_left fun r _ => ?_
    simp only [Function.comp, TaskRecord.marked, mem_cons]
    by_cases first : r.taskId = t
    · simp [first]
    · by_cases later : r.taskId ∈ ids
      · simp [first, later]
      · simp [first, later]

theorem upsertTasks_new (nodup : ids.Nodup) (new : ∀ t ∈ ids, t ∉ rows.map TaskRecord.taskId) :
    upsertTasks rows ids handleId op pre target status =
      rows ++ ids.map fun t => ⟨t, handleId, op, target, status, pre.modelId, pre.tokenIds⟩ := by
  unfold upsertTasks
  induction ids generalizing rows with
  | nil => simp
  | cons t ids ih =>
    rw [nodup_cons] at nodup
    rw [foldl_cons, upsertTask_new (new t mem_cons_self), ih nodup.2, map_cons, append_assoc, singleton_append]
    intro u mem
    rw [map_append, mem_append, not_or]
    refine ⟨new u (mem_cons_of_mem t mem), ?_⟩
    rw [map_singleton, List.mem_singleton]
    rintro rfl
    exact nodup.1 mem

end Rows

end LakeKv
