import Mathlib

/-!
# Maps by insertion

A map that is only ever put into, as its bindings in the order in which their keys were
first put; putting a key again replaces its value in place. This is all a hash table
without removals depends on, and an order of iteration is some permutation of the keys.
-/

namespace Lib

/-- Bindings with distinct keys. -/
structure PutMap (κ α : Type) where
  entries : List (κ × α)
  nodup : (entries.map Prod.fst).Nodup

namespace PutMap

variable {κ α : Type} [DecidableEq κ]

def empty : PutMap κ α := ⟨[], List.nodup_nil⟩

def keys (m : PutMap κ α) : List κ := m.entries.map Prod.fst

def get (m : PutMap κ α) (k : κ) : Option α := (m.entries.find? fun e => e.1 = k).map Prod.snd

/-- The bindings after a put. -/
def putEntries (l : List (κ × α)) (k : κ) (a : α) : List (κ × α) :=
  match l with
  | [] => [(k, a)]
  | e :: l => if e.1 = k then (k, a) :: l else e :: putEntries l k a

theorem fst_putEntries (l : List (κ × α)) (k : κ) (a : α) :
    (putEntries l k a).map Prod.fst = if k ∈ l.map Prod.fst then l.map Prod.fst else l.map Prod.fst ++ [k] := by
  induction l with
  | nil => rfl
  | cons e l ih =>
    rw [putEntries]
    by_cases same : e.1 = k
    · simp [same]
    · rw [if_neg same, List.map_cons, ih, List.map_cons]
      by_cases later : k ∈ l.map Prod.fst
      · rw [if_pos later, if_pos (List.mem_cons_of_mem _ later)]
      · rw [if_neg later, if_neg (by rw [List.mem_cons, not_or]; exact ⟨fun h => same h.symm, later⟩)]
        rfl

/-- A new key goes to the end. -/
theorem putEntries_new {l : List (κ × α)} {k : κ} (a : α) (absent : k ∉ l.map Prod.fst) :
    putEntries l k a = l ++ [(k, a)] := by
  induction l with
  | nil => rfl
  | cons e l ih =>
    rw [List.map_cons, List.mem_cons, not_or] at absent
    rw [putEntries, if_neg (Ne.symm absent.1), ih absent.2, List.cons_append]

/-- An old key stays where it is. -/
theorem putEntries_old {l r : List (κ × α)} {k : κ} (a b : α) (absent : k ∉ l.map Prod.fst) :
    putEntries (l ++ (k, a) :: r) k b = l ++ (k, b) :: r := by
  induction l with
  | nil => exact if_pos rfl
  | cons e l ih =>
    rw [List.map_cons, List.mem_cons, not_or] at absent
    rw [List.cons_append, putEntries, if_neg (Ne.symm absent.1), ih absent.2, List.cons_append]

def put (m : PutMap κ α) (k : κ) (a : α) : PutMap κ α where
  entries := putEntries m.entries k a
  nodup := by
    rw [fst_putEntries]
    split
    · exact m.nodup
    · next absent =>
      refine List.nodup_append.2 ⟨m.nodup, List.nodup_singleton k, ?_⟩
      rintro x hx y hy rfl
      exact absent (List.mem_singleton.1 hy ▸ hx)

/-- The values in a given order of the keys. -/
def values (m : PutMap κ α) (order : List κ) : List α := order.filterMap m.get

variable {m : PutMap κ α} {k j : κ} {a : α}

@[simp] theorem get_empty : (empty : PutMap κ α).get k = none := rfl

theorem get_put : (m.put k a).get j = if j = k then some a else m.get j := by
  show ((putEntries m.entries k a).find? fun e => e.1 = j).map Prod.snd =
    if j = k then some a else (m.entries.find? fun e => e.1 = j).map Prod.snd
  induction m.entries with
  | nil => simp [putEntries, eq_comm]
  | cons e l ih =>
    rw [putEntries]
    by_cases same : e.1 = k
    · subst same
      by_cases here : e.1 = j
      · simp [here]
      · simp [here, Ne.symm here]
    · rw [if_neg same, List.find?_cons, List.find?_cons]
      by_cases here : e.1 = j
      · subst here
        simp [same]
      · simp only [here, decide_false, ih]

theorem mem_keys_iff : k ∈ m.keys ↔ ∃ a, m.get k = some a := by
  simp only [keys, get, List.mem_map, Option.map_eq_some_iff]
  constructor
  · rintro ⟨e, he, rfl⟩
    have hit : (m.entries.find? fun e' => e'.1 = e.1).isSome := List.find?_isSome.2 ⟨e, he, by simp⟩
    obtain ⟨e', found⟩ := Option.isSome_iff_exists.1 hit
    exact ⟨e'.2, e', found, rfl⟩
  · rintro ⟨a, e, found, rfl⟩
    exact ⟨e, List.mem_of_find?_eq_some found, by simpa using List.find?_some found⟩

theorem get_eq_some_of_mem (mem : (k, a) ∈ m.entries) : m.get k = some a := by
  obtain ⟨b, found⟩ := mem_keys_iff.1 (List.mem_map.2 ⟨(k, a), mem, rfl⟩)
  obtain ⟨e, hit, rfl⟩ := Option.map_eq_some_iff.1 found
  have key : e.1 = k := by simpa using List.find?_some hit
  have same : e = (k, a) := List.inj_on_of_nodup_map m.nodup (List.mem_of_find?_eq_some hit) mem key
  rw [found, same]

/-- A listing of keys lists their values. -/
theorem values_eq {order : List κ} (known : ∀ k ∈ order, k ∈ m.keys) :
    (m.values order).map some = order.map m.get := by
  induction order with
  | nil => rfl
  | cons k order ih =>
    obtain ⟨a, found⟩ := mem_keys_iff.1 (known k List.mem_cons_self)
    have rest := ih fun k hk => known k (List.mem_cons_of_mem _ hk)
    rw [values, List.filterMap_cons_some found, List.map_cons, List.map_cons, found, ← rest]
    rfl

end PutMap

end Lib
