import Mathlib.Data.List.Induction
import FeatureRank.Json.Value

/-! # Members — what an object holds once values were put

    Members stand in the order of their keys, one for each key, and stay so when a
    value is put (`Json.Ordered.put`).  Putting is seen under its own key only
    (`Json.lookup_put`), so of values that are put one after the other each key keeps
    the latest (`Json.lookup_putAll`). -/

namespace FeatureRank

section

variable {κ α : Type} [DecidableEq κ]

/-- The value that comes last under a key. -/
def latest (key : κ) (pairs : List (κ × α)) : Option α := pairs.reverse.lookup key

theorem lookup_cons_eq (key : κ) (first : κ × α) (rest : List (κ × α)) :
    (first :: rest).lookup key = if key = first.1 then some first.2 else rest.lookup key := by
  obtain ⟨k, value⟩ := first
  by_cases hkey : key = k
  · rw [if_pos hkey, hkey]
    exact List.lookup_cons_self
  · rw [if_neg hkey, List.lookup_cons, beq_eq_false_iff_ne.mpr hkey]

/-- What comes last is the latest under its key. -/
theorem latest_concat (key : κ) (pairs : List (κ × α)) (last : κ × α) :
    latest key (pairs ++ [last]) = if key = last.1 then some last.2 else latest key pairs := by
  rw [latest, List.reverse_append, List.reverse_singleton, List.singleton_append, lookup_cons_eq,
    latest]

end

namespace Json

/-- Members in the order of their keys, one for each key. -/
def Ordered (members : List (String × Json)) : Prop := members.Pairwise (·.1 < ·.1)

variable {members : List (String × Json)}

/-- **Putting is seen under its own key only.** -/
theorem lookup_put (key other : String) (value : Json) (members : List (String × Json)) :
    (put key value members).lookup other
      = if other = key then some value else members.lookup other := by
  induction members with
  | nil => rw [put, lookup_cons_eq]
  | cons first rest ih =>
      rw [put, lookup_cons_eq other first]
      by_cases hsame : key = first.1
      · rw [if_pos hsame, lookup_cons_eq, hsame]
        by_cases hother : other = first.1
        · rw [if_pos hother, if_pos hother]
        · rw [if_neg hother, if_neg hother, if_neg hother]
      · rw [if_neg hsame]
        by_cases hbefore : key < first.1
        · rw [if_pos hbefore, lookup_cons_eq, lookup_cons_eq]
        · rw [if_neg hbefore, lookup_cons_eq, ih]
          by_cases hother : other = first.1
          · rw [if_pos hother, if_pos hother, if_neg fun h => hsame (h.symm.trans hother)]
          · rw [if_neg hother, if_neg hother]

/-- What stands among the members was put there, or was there. -/
theorem mem_put {key : String} {value : Json} {x : String × Json}
    (h : x ∈ put key value members) : x = (key, value) ∨ x ∈ members := by
  induction members with
  | nil => exact .inl (List.mem_singleton.mp h)
  | cons first rest ih =>
      rw [put] at h
      split at h
      · exact (List.mem_cons.mp h).imp_right (List.mem_cons_of_mem _)
      · split at h
        · exact List.mem_cons.mp h
        · rcases List.mem_cons.mp h with rfl | h
          · exact .inr List.mem_cons_self
          · exact (ih h).imp_right (List.mem_cons_of_mem _)

/-- **Members stay ordered when a value is put.** -/
theorem Ordered.put (h : Ordered members) (key : String) (value : Json) :
    Ordered (put key value members) := by
  induction members with
  | nil => exact List.pairwise_singleton _ _
  | cons first rest ih =>
      obtain ⟨hfirst, hrest⟩ := List.pairwise_cons.mp h
      rw [Json.put]
      split
      · next hsame =>
          refine List.pairwise_cons.mpr ⟨fun x hx => ?_, hrest⟩
          rw [hsame]
          exact hfirst x hx
      · next hdiffer =>
          split
          · next hbefore =>
              refine List.pairwise_cons.mpr ⟨fun x hx => ?_, h⟩
              rcases List.mem_cons.mp hx with rfl | hx
              · exact hbefore
              · exact String.lt_trans hbefore (hfirst x hx)
          · next hnot =>
              refine List.pairwise_cons.mpr ⟨fun x hx => ?_, ih hrest⟩
              rcases mem_put hx with rfl | hx
              · by_contra hle
                exact hdiffer (String.le_antisymm (String.not_lt.mp hle) (String.not_lt.mp hnot))
              · exact hfirst x hx

/-- Members with values put one after the other. -/
def putAll (members values : List (String × Json)) : List (String × Json) :=
  values.foldl (fun members x => Json.put x.1 x.2 members) members

theorem putAll_append (members before values : List (String × Json)) :
    putAll members (before ++ values) = putAll (putAll members before) values :=
  List.foldl_append

/-- **Each key has the latest value that was put under it**, or what it had. -/
theorem lookup_putAll (key : String) (members values : List (String × Json)) :
    (putAll members values).lookup key = (latest key values).or (members.lookup key) := by
  induction values using List.reverseRecOn with
  | nil => rfl
  | append_singleton values last ih =>
      rw [putAll_append, latest_concat]
      show (Json.put last.1 last.2 (putAll members values)).lookup key = _
      rw [lookup_put, ih]
      by_cases hkey : key = last.1
      · rw [if_pos hkey, if_pos hkey, Option.some_or]
      · rw [if_neg hkey, if_neg hkey]

theorem Ordered.putAll (h : Ordered members) (values : List (String × Json)) :
    Ordered (putAll members values) := by
  induction values generalizing members with
  | nil => exact h
  | cons first rest ih => exact ih (h.put first.1 first.2)

end Json

end FeatureRank
