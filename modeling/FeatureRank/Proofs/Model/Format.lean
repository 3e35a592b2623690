import FeatureRank.Model.Format
import FeatureRank.Proofs.Number.Widening

/-! # Model files — what is written is read again

    A model file is written by one set of functions and read by another, which finds out
    the types of templates, rankers and nodes and fills in what was left out.  For each
    kind of value the two agree (`ReadsAs`): what is written of a value is read as that
    value and as no other, and it is read at all just when its numbers are finite, since
    NaN and the infinities are written as `null`.  The law goes from numbers to lists, to
    nodes by induction over the tree, to templates and rankers, and up to the file. -/

namespace FeatureRank

/-- What is read is a value when the numbers of the value are finite, else nothing. -/
def ReadsAs {α : Type} (read : Option α) (x : α) (numbers : List Float32) : Prop :=
  ∀ y, read = some y ↔ (∀ n ∈ numbers, n.isFinite = true) ∧ y = x

namespace ReadsAs

variable {α β : Type} {read : Option α} {x : α} {numbers : List Float32}

/-- A value without numbers is always read. -/
theorem some (x : α) : ReadsAs (.some x) x [] := by
  intro y
  rw [Option.some.injEq, and_iff_right fun n hn => nomatch hn]
  exact eq_comm

/-- What is read after a value is read with the numbers of both. -/
theorem bind {next : α → Option β} {z : β} {others : List Float32} (h : ReadsAs read x numbers)
    (hnext : ReadsAs (next x) z others) : ReadsAs (read.bind next) z (numbers ++ others) := by
  intro y
  rw [Option.bind_eq_some_iff, List.forall_mem_append, and_assoc, ← hnext y]
  constructor
  · rintro ⟨x', hread, hy⟩
    obtain ⟨hfinite, rfl⟩ := (h x').mp hread
    exact ⟨hfinite, hy⟩
  · rintro ⟨hfinite, hy⟩
    exact ⟨x, (h x).mpr ⟨hfinite, rfl⟩, hy⟩

/-- A value is read with the numbers of its last part. -/
theorem last (h : ReadsAs read x numbers) (make : α → β) :
    ReadsAs (read.bind fun x => .some (make x)) (make x) numbers := by
  rw [← List.append_nil numbers]
  exact h.bind (some (make x))

/-- **Lists** are read again when their items are. -/
theorem list {γ : Type} {write : α → γ} {readItem : γ → Option α} {numbersOf : α → List Float32}
    (h : ∀ x, ReadsAs (readItem (write x)) x (numbersOf x)) (xs : List α) :
    ReadsAs ((xs.map write).mapM readItem) xs (xs.flatMap numbersOf) := by
  induction xs with
  | nil => exact some []
  | cons x rest ih =>
      rw [List.map_cons, List.mapM_cons, List.flatMap_cons]
      exact (h x).bind (ih.last (x :: ·))

end ReadsAs

/-! ## Contents -/

namespace Content

/-- **Numbers of 32 bits** are read again from the binary64 numbers that JSON holds. -/
theorem float32?_ofFloat32 (x : Float32) : ReadsAs (ofJson (.ofFloat32 x)).float32? x [x] := by
  intro y
  rw [List.forall_mem_singleton]
  by_cases h : x.isFinite = true
  · have hread : (ofJson (.ofFloat32 x)).float32? = some x := by
      rw [Json.ofFloat32, if_pos h]
      exact congrArg some (Number.narrow_widen h)
    rw [hread, Option.some.injEq, and_iff_right h]
    exact eq_comm
  · have hread : (ofJson (.ofFloat32 x)).float32? = none := by
      rw [Json.ofFloat32, if_neg h]
      rfl
    rw [hread]
    exact iff_of_false nofun fun hy => h hy.1

theorem ofItems_eq_map (items : List Json) : ofItems items = items.map ofJson := by
  induction items with
  | nil => rfl
  | cons item rest ih => rw [ofItems, ih, List.map_cons]

/-- Lists are read again from contents when their items are. -/
theorem items_readsAs {α : Type} {write : α → Json} {read : Content → Option α}
    {numbersOf : α → List Float32} (h : ∀ x, ReadsAs (read (ofJson (write x))) x (numbersOf x))
    (xs : List α) :
    ReadsAs ((ofItems (xs.map write)).mapM read) xs (xs.flatMap numbersOf) := by
  rw [ofItems_eq_map, List.map_map]
  exact .list h xs

theorem numbers_readsAs (xs : List Float32) :
    ReadsAs ((ofItems (xs.map .ofFloat32)).mapM float32?) xs xs := by
  have h := items_readsAs float32?_ofFloat32 xs
  rwa [List.flatMap_singleton'] at h

end Content

/-! ## Nodes -/

namespace Tree

/-- The numbers of a tree. -/
def numbers : Tree → List Float32
  | .split _ threshold left right => threshold :: (left.numbers ++ right.numbers)
  | .leaf output => [output]

/-- **Nodes of any depth.**  A split is read as a split, and a leaf as a leaf. -/
theorem readsAs (tree : Tree) : ReadsAs (ofContent? (.ofJson tree.toJson)) tree tree.numbers := by
  induction tree with
  | leaf output =>
      -- a leaf has no field of a split
      have hread : ofContent? (.ofJson (leaf output).toJson)
          = (Content.ofJson (.ofFloat32 output)).float32?.bind fun output => some (leaf output) := rfl
      rw [hread]
      exact (Content.float32?_ofFloat32 output).last leaf
  | split feature threshold left right ihl ihr =>
      -- a split that is refused is no leaf either: it has no output
      have hread : ofContent? (.ofJson (split feature threshold left right).toJson)
          = (((Content.ofJson (.ofFloat32 threshold)).float32?.bind fun threshold =>
              (ofContent? (.ofJson left.toJson)).bind fun left =>
                (ofContent? (.ofJson right.toJson)).bind fun right =>
                  some (split feature threshold left right)) <|> none) := rfl
      rw [hread, Option.orElse_eq_orElse, Option.orElse_eq_or, Option.or_none]
      exact (Content.float32?_ofFloat32 threshold).bind (ihl.bind (ihr.last _))

end Tree

/-! ## Templates -/

/-- The numbers of an input. -/
def DerivedInput.numbers (i : DerivedInput) : List Float32 := [i.weight]

theorem DerivedInput.readsAs (i : DerivedInput) :
    ReadsAs (ofContent? (.ofJson i.toJson)) i i.numbers := by
  have hread : ofContent? (.ofJson i.toJson)
      = (Content.ofJson (.ofFloat32 i.weight)).float32?.bind fun weight =>
        some ⟨i.feature, weight⟩ := rfl
  rw [hread]
  exact (Content.float32?_ofFloat32 i.weight).last _

namespace Template

/-- The numbers of a template. -/
def numbers : Template → List Float32
  | .constant score => [score]
  | .derived inputs offset _ => inputs.flatMap DerivedInput.numbers ++ [offset]
  | .anyTerm _ | .phrase _ | .languageModel _ => []

/-- **Templates** are found again under their types. -/
theorem readsAs (t : Template) : ReadsAs (ofDocument? (.json t.toJson)) t t.numbers := by
  cases t with
  | anyTerm text => exact .some (anyTerm text)
  | phrase text => exact .some (phrase text)
  | languageModel text => exact .some (languageModel text)
  | constant score =>
      have hread : ofDocument? (.json (constant score).toJson)
          = (Content.ofJson (.ofFloat32 score)).float32?.bind fun score =>
            some (.constant score) := rfl
      rw [hread]
      exact (Content.float32?_ofFloat32 score).last _
  | derived inputs offset logged =>
      have hread : ofDocument? (.json (derived inputs offset logged).toJson)
          = ((Content.ofItems (inputs.map DerivedInput.toJson)).mapM
              DerivedInput.ofContent?).bind fun inputs =>
            (Content.ofJson (.ofFloat32 offset)).float32?.bind fun offset =>
              some (.derived inputs offset logged) := rfl
      rw [hread]
      exact (Content.items_readsAs DerivedInput.readsAs inputs).bind
        ((Content.float32?_ofFloat32 offset).last _)

end Template

/-! ## Features -/

/-- The numbers of a feature. -/
def StoredFeature.numbers (f : StoredFeature) : List Float32 := f.template.numbers

theorem Document.texts_readsAs (texts : List String) :
    ReadsAs (((texts.map Json.string).map Document.json).mapM Document.text?) texts [] := by
  have htext (text : String) : ReadsAs (text? (.json (.string text))) text [] := .some text
  have h := ReadsAs.list htext texts
  have hnone : texts.flatMap (fun _ => ([] : List Float32)) = [] :=
    List.flatMap_eq_nil_iff.mpr fun _ _ => rfl
  rw [hnone] at h
  rwa [List.map_map]

theorem StoredFeature.readsAs (f : StoredFeature) :
    ReadsAs (ofDocument? (.json f.toJson)) f f.numbers := by
  have hread : ofDocument? (.json f.toJson)
      = (((f.params.map Json.string).map Document.json).mapM Document.text?).bind fun params =>
        (Template.ofDocument? (.json f.template.toJson)).bind fun template =>
          some ⟨f.name, params, template⟩ := rfl
  rw [hread]
  exact (Document.texts_readsAs f.params).bind (f.template.readsAs.last _)

/-- The numbers of a set. -/
def StoredFeatureSet.numbers (s : StoredFeatureSet) : List Float32 :=
  s.features.flatMap StoredFeature.numbers

theorem StoredFeatureSet.readsAs (s : StoredFeatureSet) :
    ReadsAs (ofDocument? (.json s.toJson)) s s.numbers := by
  have hread : ofDocument? (.json s.toJson)
      = (((s.features.map StoredFeature.toJson).map Document.json).mapM
          StoredFeature.ofDocument?).bind fun features => some ⟨s.name, features⟩ := rfl
  rw [hread, List.map_map]
  exact (ReadsAs.list StoredFeature.readsAs s.features).last _

/-! ## Rankers -/

namespace RankerDefinition

/-- The numbers of a ranker. -/
def numbers : RankerDefinition → List Float32
  | .linear weights default => weights ++ [default]
  | .ensemble trees default => trees.flatMap Tree.numbers ++ [default]
  | .null => []

/-- **Rankers** are found again under their types. -/
theorem readsAs (d : RankerDefinition) : ReadsAs (ofDocument? (.json d.toJson)) d d.numbers := by
  cases d with
  | linear weights default =>
      have hread : ofDocument? (.json (linear weights default).toJson)
          = ((Content.ofItems (weights.map .ofFloat32)).mapM Content.float32?).bind fun weights =>
            (Content.ofJson (.ofFloat32 default)).float32?.bind fun default =>
              some (.linear weights default) := rfl
      rw [hread]
      exact (Content.numbers_readsAs weights).bind ((Content.float32?_ofFloat32 default).last _)
  | ensemble trees default =>
      have hread : ofDocument? (.json (ensemble trees default).toJson)
          = ((Content.ofItems (trees.map Tree.toJson)).mapM Tree.ofContent?).bind fun trees =>
            (Content.ofJson (.ofFloat32 default)).float32?.bind fun default =>
              some (.ensemble trees default) := rfl
      rw [hread]
      exact (Content.items_readsAs Tree.readsAs trees).bind
        ((Content.float32?_ofFloat32 default).last _)
  | null => exact .some null

end RankerDefinition

/-! ## Files -/

namespace ModelFile

/-- The numbers of a file. -/
def numbers (file : ModelFile) : List Float32 := file.features.numbers ++ file.definition.numbers

/-- A file that has neither NaN nor an infinity in it. -/
def Finite (file : ModelFile) : Prop := ∀ n ∈ file.numbers, n.isFinite = true

theorem readsAs (file : ModelFile) :
    ReadsAs (ofDocument? (.json file.toJson)) file file.numbers := by
  have hread : ofDocument? (.json file.toJson)
      = (StoredFeatureSet.ofDocument? (.json file.features.toJson)).bind fun features =>
        (RankerDefinition.ofDocument? (.json file.definition.toJson)).bind fun definition =>
          some ⟨file.name, features, definition⟩ := rfl
  rw [hread]
  exact file.features.readsAs.bind (file.definition.readsAs.last _)

instance (file : ModelFile) : Decidable file.Finite :=
  inferInstanceAs (Decidable (∀ n ∈ file.numbers, n.isFinite = true))

theorem ofJson_eq_ok_iff {value : Json} {file : ModelFile} :
    ofJson value = .ok file ↔ ofDocument? (.json value) = some file := by
  unfold ofJson
  cases ofDocument? (.json value) with
  | none => exact iff_of_false nofun nofun
  | some read => rw [Except.ok.injEq, Option.some.injEq]

/-- **A model file survives being written.**  A file whose numbers are finite is read
    again from what is written of it, bit for bit; so is every such file that was read
    from a value, however much the value left out.  No file is read as another one, and
    no node of a tree as another node, whatever its numbers. -/
theorem reads_what_was_written (file : ModelFile) :
    (file.Finite → ofJson file.toJson = .ok file) ∧
      (∀ value, ofJson value = .ok file → file.Finite → ofJson file.toJson = ofJson value) ∧
      (∀ read, ofJson file.toJson = .ok read → file.Finite ∧ read = file) ∧
      ∀ tree read, Tree.ofContent? (.ofJson tree.toJson) = some read → read = tree := by
  have hwritten : file.Finite → ofJson file.toJson = .ok file := fun hfinite =>
    ofJson_eq_ok_iff.mpr ((file.readsAs file).mpr ⟨hfinite, rfl⟩)
  refine ⟨hwritten, fun value hvalue hfinite => ?_, fun read hread => ?_, fun tree read hread => ?_⟩
  · rw [hwritten hfinite, hvalue]
  · exact (file.readsAs read).mp (ofJson_eq_ok_iff.mp hread)
  · exact ((tree.readsAs read).mp hread).2

/-- A value that leaves out what it can, and the file of it. -/
theorem reads_what_was_written_left_out :
    ∃ file, ofJson (.object [("name", .string "m"),
        ("feature_set", .object [("name", .string "s"), ("features", .array [
          .object [("name", .string "two"), ("template", .object [
            ("type", .string "constant"), ("score", .number (.integer 2))])],
          .object [("name", .string "sum"), ("template", .object [("type", .string "derived"),
            ("inputs", .array [.object [("feature", .string "two")]])])]])]),
        ("model", .object [("type", .string "tree_ensemble"), ("trees", .array [
          .object [("feature", .number (.integer 1)), ("threshold", .number (.real 0.5)),
            ("left", .object [("output", .number (.real (-0.0)))]),
            ("right", .object [("output", .number (.integer 3))])]])])]) = .ok file ∧
      file.definition = .ensemble [.split 1 0.5 (.leaf (-0.0)) (.leaf 3.0)] 0.0 ∧
      file.Finite ∧ ofJson file.toJson = .ok file := by
  have hagain : ∀ {value : Json} {file : ModelFile}, ofJson value = .ok file → file.Finite →
      ofJson file.toJson = .ok file :=
    fun hvalue hfinite => ((reads_what_was_written _).2.1 _ hvalue hfinite).trans hvalue
  refine ⟨⟨"m", ⟨"s", [⟨"two", [], .constant 2.0⟩,
    ⟨"sum", [], .derived [⟨"two", 1.0⟩] 0.0 false⟩]⟩,
    .ensemble [.split 1 0.5 (.leaf (-0.0)) (.leaf 3.0)] 0.0⟩, ?value, rfl, by decide,
    hagain ?value (by decide)⟩
  rfl

end ModelFile

end FeatureRank
