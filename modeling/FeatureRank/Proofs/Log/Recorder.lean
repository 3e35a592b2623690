import FeatureRank.Log.Recorder
import FeatureRank.Proofs.Outcome

/-! # Recorders — the log of a hit is what was recorded for it

    A recorder writes one open log at a time.  Values that belong to ordinals below
    the number of features are accepted, and rebuild the list that they came from
    (`LogRecorder.acceptAll_pairs`); so the log of a visited document has the vector
    of its score (`LogRecorder.recordVisits_eq`).  What an entry reports is read off
    the value of its ordinal (`LogRecorder.entries_getElem?`). -/

namespace FeatureRank

namespace LogRecorder

/-- A recorder with a log open. -/
def withOpen (r : LogRecorder) (log : OpenLog) : LogRecorder := { r with current := some log }

/-- The values of ordinals from one on that are there. -/
def pairs (first : Nat) (values : List (Option Float32)) : List (Nat × Float32) :=
  (values.zipIdx first).filterMap fun (value, ordinal) => value.map ((ordinal, ·))

/-! ## What stays -/

@[simp] theorem features_close (r : LogRecorder) : r.close.features = r.features := by
  unfold close
  split <;> rfl

@[simp] theorem missingAsZero_close (r : LogRecorder) :
    r.close.missingAsZero = r.missingAsZero := by
  unfold close
  split <;> rfl

/-- Entries are made from the names of the features and from what a missing value
    is reported as. -/
theorem entries_congr {a b : LogRecorder} (hfeatures : a.features = b.features)
    (hmissing : a.missingAsZero = b.missingAsZero) : a.entries = b.entries := by
  have hreported : a.reported = b.reported := by
    funext value
    unfold reported
    rw [hmissing]
  funext log
  unfold entries
  rw [hfeatures, hreported]

@[simp] theorem entries_close (r : LogRecorder) : r.close.entries = r.entries :=
  entries_congr r.features_close r.missingAsZero_close

/-- A log that was open is the last of those taken. -/
theorem take_withOpen (r : LogRecorder) (log : OpenLog) :
    (r.withOpen log).take.1 = r.logs ++ [(log.hit, r.entries log)] := rfl

/-- The entry of a feature. -/
theorem entries_getElem? {r : LogRecorder} {log : OpenLog} {i : Nat} {name : String}
    {value : Option Float32} (hname : r.features[i]? = some name)
    (hvalue : log.values[i]? = some value) :
    (r.entries log)[i]? = some ⟨name, r.reported value⟩ := by
  have hzip : (r.features.zip log.values)[i]? = some (name, value) :=
    List.getElem?_zip_eq_some.mpr ⟨hname, hvalue⟩
  have hlt : i < (r.features.zip log.values).length :=
    (List.getElem?_eq_some_iff.mp hzip).1
  unfold entries
  rw [List.getElem?_append_left (by rw [List.length_map]; exact hlt), List.getElem?_map, hzip]
  rfl

/-! ## Accepting values -/

/-- **Values rebuild the list that they came from.** -/
theorem acceptAll_pairs (r : LogRecorder) (hit : Nat) (extra : Option (List (String × Json)))
    (values : List (Option Float32)) :
    ∀ before : List (Option Float32), before.length + values.length ≤ r.featureCount →
      (r.withOpen ⟨hit, before ++ List.replicate values.length none, extra⟩).acceptAll
          (pairs before.length values)
        = .ok (r.withOpen ⟨hit, before ++ values, extra⟩) := by
  induction values with
  | nil => intro before _; rfl
  | cons value rest ih =>
      intro before hsize
      rw [List.length_cons] at hsize
      have hnext := ih (before ++ [value]) (by
        rw [List.length_append, List.length_singleton]
        omega)
      rw [List.length_append, List.length_singleton, List.append_assoc, List.append_assoc] at hnext
      cases value with
      | none => exact hnext
      | some value =>
          have haccept : (r.withOpen
              ⟨hit, before ++ List.replicate (rest.length + 1) none, extra⟩).accept before.length value
              = .ok (r.withOpen
                ⟨hit, before ++ some value :: List.replicate rest.length none, extra⟩) := by
            have hlt : before.length
                < (r.withOpen ⟨hit, before ++ List.replicate (rest.length + 1) none, extra⟩).featureCount :=
              show before.length < r.featureCount by omega
            have hset : (before ++ List.replicate (rest.length + 1) none).set before.length (some value)
                = before ++ some value :: List.replicate rest.length none := by
              rw [List.set_append_right _ _ (Nat.le_refl _), Nat.sub_self]
              rfl
            unfold accept
            simp only [withOpen, hset]
            exact if_pos hlt
          exact bind_eq_ok.mpr ⟨_, haccept, hnext⟩

/-- What a log holds beside the values of the features once more was added. -/
def extraOf (extras : List (String × Float32)) (extra : Option (List (String × Json))) :
    Option (List (String × Json)) :=
  extras.foldl (fun extra (key, value) => some (Json.put key (.ofFloat32 value) (extra.getD [])))
    extra

/-- Values beside those of the features leave the values as they are. -/
theorem addExtras_eq (r : LogRecorder) (hit : Nat) (values : List (Option Float32))
    (extras : List (String × Float32)) :
    ∀ extra : Option (List (String × Json)),
      extras.foldlM (fun r (key, value) => addExtra r key (.ofFloat32 value))
          (r.withOpen ⟨hit, values, extra⟩)
        = .ok (r.withOpen ⟨hit, values, extraOf extras extra⟩) := by
  induction extras with
  | nil => exact fun _ => rfl
  | cons first rest ih =>
      intro extra
      exact bind_eq_ok.mpr
        ⟨_, rfl, ih (some (Json.put first.1 (.ofFloat32 first.2) (extra.getD [])))⟩

/-! ## Logs of documents -/

/-- The entries of a scored document; they do not depend on which hit it is. -/
def entriesFor (r : LogRecorder) (scored : Scored) : List LogEntry :=
  r.entries ⟨0, (scored.features.map (·.values.toList)).getD [], extraOf scored.extras none⟩

/-- A document that was scored with a vector. -/
theorem record_eq {r : LogRecorder} {scored : Scored} {v : FeatureVector}
    (hv : scored.features = some v) (hsize : v.size = r.featureCount) (hit : Nat) :
    r.record hit scored
      = .ok (r.close.withOpen ⟨hit, v.values.toList, extraOf scored.extras none⟩) := by
  have hcount : r.featureCount = v.values.toList.length := by
    rw [Array.length_toList]
    exact hsize.symm
  have hextras := addExtras_eq r.close hit
    (List.replicate v.values.toList.length none) scored.extras none
  have hvalues := acceptAll_pairs r.close hit (extraOf scored.extras none) v.values.toList [] (by
    rw [List.length_nil, Nat.zero_add, ← hcount]
    exact Nat.le_of_eq (congrArg List.length (features_close r)).symm)
  have hopened : r.nextDoc hit
      = r.close.withOpen ⟨hit, List.replicate v.values.toList.length none, none⟩ := by
    unfold nextDoc
    rw [hcount]
    rfl
  rw [← hopened] at hextras
  refine bind_eq_ok.mpr ⟨_, hextras, ?_⟩
  rw [hv]
  exact hvalues

/-- **The logs of visited documents**, in the order of the visits. -/
theorem recordVisits_eq (visits : List (Nat × Nat × Scored)) :
    ∀ r : LogRecorder,
      (∀ x ∈ visits, ∃ v, x.2.2.features = some v ∧ v.size = r.featureCount) →
      ∃ r', r.recordVisits visits = .ok r' ∧
        r'.take.1 = r.take.1 ++ visits.map fun x => (x.1, r.entriesFor x.2.2) := by
  induction visits with
  | nil => exact fun r _ => ⟨r, rfl, (List.append_nil _).symm⟩
  | cons visit rest ih =>
      intro r hfeatures
      obtain ⟨v, hv, hsize⟩ := hfeatures visit List.mem_cons_self
      have hrecord := record_eq hv hsize visit.1
      let log : OpenLog := ⟨visit.1, v.values.toList, extraOf visit.2.2.extras none⟩
      obtain ⟨r', hrest, htake⟩ := ih (r.close.withOpen log) (by
          intro x hx
          obtain ⟨v', hv', hsize'⟩ := hfeatures x (List.mem_cons_of_mem _ hx)
          exact ⟨v', hv', hsize'.trans (congrArg List.length (features_close r)).symm⟩)
      have hentries : (r.close.withOpen log).entriesFor = r.entriesFor := by
        funext scored
        exact congrFun (entries_close r) _
      have hlog : r.entriesFor visit.2.2 = r.entries log := by
        unfold entriesFor
        rw [hv]
        rfl
      refine ⟨r', bind_eq_ok.mpr ⟨_, hrecord, hrest⟩, ?_⟩
      rw [htake, take_withOpen, entries_close, hentries, List.append_assoc, List.map_cons, hlog]
      rfl

end LogRecorder

end FeatureRank
