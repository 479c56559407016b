import Mathlib.Data.List.Induction
import Mathlib.Data.List.Nodup
import ScriptAnalysis.Table.Signature

/-!
The table of signatures against the list of all registrations. Registering adds a signature behind the
others or leaves it where it is, so the order of the table is that of first registrations, while the
function of a signature is the last one registered (`Signatures.register_log`).
-/
namespace ScriptAnalysis.Signatures

/-- The table after registrations, the earliest first. -/
def ofLog (log : List (Signature × DeclId)) : Signatures :=
  log.foldl (fun t entry => t.register entry.1 entry.2) {}

/-- The function of the last registration under a signature. -/
def latest? (log : List (Signature × DeclId)) (s : Signature) : Option DeclId :=
  (log.filter (·.1 = s)).getLast?.map (·.2)

/-- The signatures that were registered, each at its first place. -/
def listed (log : List (Signature × DeclId)) : List Signature := (log.map (·.1)).eraseDups

/-- The two parts of the table agree: what has a function is in the order, once. -/
structure Agrees (t : Signatures) : Prop where
  listed : ∀ s, s ∈ t.order.toList ↔ (t.get? s).isSome = true
  nodup : t.order.toList.Nodup
  size : t.size = t.order.size

variable {t : Signatures} {log : List (Signature × DeclId)} {s u : Signature} {d : DeclId}

/-- A signature that is listed keeps its place, and one that is not comes last. -/
theorem Agrees.order_register (h : t.Agrees) (s : Signature) (d : DeclId) :
    (t.register s d).order.toList = if s ∈ t.order.toList then t.order.toList else t.order.toList ++ [s] := by
  simp only [register, replace, h.listed]
  cases t.get? s with
  | none => simp
  | some _ => simp

theorem agrees_empty : ({} : Signatures).Agrees := ⟨by simp [get?], .nil, rfl⟩

/-- A registration keeps the table and the order in agreement, whether the signature is new or not. -/
theorem Agrees.register (h : t.Agrees) (s : Signature) (d : DeclId) : (t.register s d).Agrees := by
  have horder := h.order_register s d
  refine ⟨fun u => ?_, ?_, ?_⟩
  · rw [get?_register, horder]
    by_cases hu : s = u
    · subst hu
      by_cases hs : s ∈ t.order.toList <;> simp [hs]
    · rw [if_neg hu, ← h.listed]
      split
      · rfl
      · simp [Ne.symm hu]
  · rw [horder]
    split
    · exact h.nodup
    · next hs =>
      refine List.nodup_append.2 ⟨h.nodup, List.nodup_singleton s, fun a ha b hb hab => hs ?_⟩
      rwa [← List.mem_singleton.1 hb, ← hab]
  · have hmem : s ∈ t.entries ↔ s ∈ t.order.toList :=
      Std.TreeMap.mem_iff_isSome_getElem?.trans (h.listed s).symm
    have hsize : (t.register s d).size = if s ∈ t.entries then t.size else t.size + 1 := Std.TreeMap.size_insert
    rw [← Array.length_toList, horder, hsize, h.size, ← Array.length_toList]
    by_cases hs : s ∈ t.order.toList
    · rw [if_pos hs, if_pos (hmem.2 hs)]
    · rw [if_neg hs, if_neg (mt hmem.1 hs), List.length_append, List.length_singleton]

theorem latest?_append (log : List (Signature × DeclId)) (s u : Signature) (d : DeclId) :
    latest? (log ++ [(s, d)]) u = if s = u then some d else latest? log u := by
  by_cases h : s = u <;> simp [latest?, List.filter_append, List.getLast?_append, h]

theorem listed_append (log : List (Signature × DeclId)) (s : Signature) (d : DeclId) :
    listed (log ++ [(s, d)]) = if s ∈ listed log then listed log else listed log ++ [s] := by
  simp only [listed, List.map_append, List.eraseDups_append, List.mem_eraseDups]
  by_cases h : s ∈ log.map (·.1) <;> simp [List.removeAll, h, List.eraseDups_cons]

theorem ofLog_append (log : List (Signature × DeclId)) (s : Signature) (d : DeclId) :
    ofLog (log ++ [(s, d)]) = (ofLog log).register s d := by
  simp [ofLog]

theorem agrees_ofLog (log : List (Signature × DeclId)) : (ofLog log).Agrees := by
  induction log using List.reverseRecOn with
  | nil => exact agrees_empty
  | append_singleton log entry ih => exact ofLog_append log entry.1 entry.2 ▸ ih.register entry.1 entry.2

theorem get?_ofLog (log : List (Signature × DeclId)) (s : Signature) :
    (ofLog log).get? s = latest? log s := by
  induction log using List.reverseRecOn with
  | nil => rfl
  | append_singleton log entry ih => rw [ofLog_append, latest?_append, ← ih, get?_register]

theorem order_ofLog (log : List (Signature × DeclId)) : (ofLog log).order.toList = listed log := by
  induction log using List.reverseRecOn with
  | nil => rfl
  | append_singleton log entry ih => rw [ofLog_append, listed_append, ← ih, (agrees_ofLog log).order_register]

/-- Signatures are listed in the order of their first registrations. -/
theorem pairwise_listed (log : List (Signature × DeclId)) :
    (listed log).Pairwise fun s u => (log.map (·.1)).idxOf s < (log.map (·.1)).idxOf u := by
  induction log using List.reverseRecOn with
  | nil => exact .nil
  | append_singleton log entry ih =>
    have hold : ∀ s ∈ listed log,
        ((log ++ [entry]).map (·.1)).idxOf s = (log.map (·.1)).idxOf s := by
      intro s hs
      rw [List.map_append, List.idxOf_append, if_pos (List.mem_eraseDups.1 hs)]
    have hkept := ih.imp_of_mem fun hs hu h => by rwa [← hold _ hs, ← hold _ hu] at h
    rw [listed_append]
    split
    · exact hkept
    · next hnew =>
      refine List.pairwise_append.2 ⟨hkept, List.pairwise_singleton .., ?_⟩
      intro s hs u hu
      obtain rfl := List.mem_singleton.1 hu
      have hu : entry.1 ∉ log.map (·.1) := mt List.mem_eraseDups.2 hnew
      rw [hold s hs, List.map_append, List.idxOf_append, if_neg hu]
      exact Nat.lt_of_lt_of_le (List.idxOf_lt_length_iff.2 (List.mem_eraseDups.1 hs))
        (Nat.le_add_left ..)

theorem map_some_filterMap {α β : Type} {f : α → Option β} {l : List α} (h : ∀ x ∈ l, (f x).isSome = true) :
    (l.filterMap f).map some = l.map f := by
  induction l with
  | nil => rfl
  | cons x l ih =>
    simp only [List.forall_mem_cons] at h
    obtain ⟨y, hy⟩ := Option.isSome_iff_exists.1 h.1
    rw [List.filterMap_cons_some hy, List.map_cons, List.map_cons, ih h.2, hy]

/-- Registrations one after the other: the table and the order stay in agreement, each registration gives
back the function of the last one before it under its signature, and what the table then says is what the
last registrations say, in the order of the first. -/
theorem register_log (log : List (Signature × DeclId)) :
    (ofLog log).Agrees ∧ (ofLog log).order.toList = listed log ∧
    (∀ s d, (ofLog log).replace s d = (ofLog (log ++ [(s, d)]), latest? log s)) ∧
    (∀ s, (ofLog log).get? s = latest? log s) ∧
    (ofLog log).size = (listed log).length ∧
    (∀ s, s ∈ listed log ↔ ∃ d, (s, d) ∈ log) ∧ (listed log).Nodup ∧
    (listed log).Pairwise (fun s u => (log.map (·.1)).idxOf s < (log.map (·.1)).idxOf u) ∧
    ∀ name scopes, ((ofLog log).overloads name scopes).map some = scopes.flatMap fun scope =>
      ((listed log).filter fun s => s.scope = scope ∧ s.name = name).map (latest? log) := by
  have hagrees := agrees_ofLog log
  have hnodup : (listed log).Nodup := (pairwise_listed log).imp fun h heq => by simp [heq] at h
  refine ⟨hagrees, order_ofLog log, fun s d => ?_, get?_ofLog log, ?_, fun s => by simp [listed], hnodup,
    pairwise_listed log, fun name scopes => ?_⟩
  · rw [ofLog_append, ← get?_ofLog]
    rfl
  · rw [hagrees.size, ← order_ofLog, Array.length_toList]
  · have hset : ∀ s ∈ scopes.flatMap fun scope =>
        (ofLog log).order.toList.filter fun s => s.scope = scope ∧ s.name = name,
        ((ofLog log).get? s).isSome = true := by
      intro s hs
      obtain ⟨scope, _, hs⟩ := List.mem_flatMap.1 hs
      exact (hagrees.listed s).1 (List.mem_of_mem_filter hs)
    rw [overloads, map_some_filterMap hset, List.map_flatMap, order_ofLog, funext (get?_ofLog log)]

end ScriptAnalysis.Signatures
