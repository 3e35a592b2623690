import FeatureRank.Proofs.Feature.Requirements
import FeatureRank.Proofs.Search.DerivedSums
import FeatureRank.Proofs.Search.Success

/-! # Accepted models — which files compile, and that what compiles runs

    A model file is well-formed when its features have different names, its sums read
    features before them only, and its ranker fits the number of features
    (`ModelFile.WellFormed`).  The checks are made one after the other, by the set, by
    the definition of the ranker and by the model; each is matched here with the part
    of well-formedness that it stands for, and together they accept just the
    well-formed files (`ModelFile.compile_ok_iff`).

    What is accepted keeps the names and the ordinals of the file
    (`ModelFile.Describes`), and its queries always get their weights: no sum reads an
    ordinal that is not there, and none is left without a vector
    (`ModelFile.accepts_well_formed`). -/

namespace FeatureRank

/-! ## Trees -/

namespace Tree

/-- A tree asks for a feature at one of its splits. -/
inductive SplitsOn (feature : Nat) : Tree → Prop where
  | here (threshold : Float32) (left right : Tree) :
      SplitsOn feature (.split feature threshold left right)
  | left {other : Nat} {threshold : Float32} {left right : Tree} (h : SplitsOn feature left) :
      SplitsOn feature (.split other threshold left right)
  | right {other : Nat} {threshold : Float32} {left right : Tree} (h : SplitsOn feature right) :
      SplitsOn feature (.split other threshold left right)

variable {n : Nat}

theorem greater?_lt_iff {a b : Option Nat} :
    (∀ x ∈ greater? a b, x < n) ↔ (∀ x ∈ a, x < n) ∧ ∀ x ∈ b, x < n := by
  cases a with
  | none => simp [greater?]
  | some x =>
      cases b with
      | none => simp [greater?]
      | some y => simp [greater?]

/-- **The greatest feature of a tree** is below a number just when all its splits are. -/
theorem greatestFeature?_lt_iff {t : Tree} :
    (∀ x ∈ t.greatestFeature?, x < n) ↔ ∀ feature, t.SplitsOn feature → feature < n := by
  induction t with
  | leaf output =>
      constructor
      · intro _ feature h
        cases h
      · intro _ x hx
        exact nomatch hx
  | split feature threshold left right ihl ihr =>
      rw [greatestFeature?, greater?_lt_iff, greater?_lt_iff, ihl, ihr]
      constructor
      · rintro ⟨hhere, hleft, hright⟩ other h
        cases h with
        | here => exact hhere feature rfl
        | left h => exact hleft other h
        | right h => exact hright other h
      · intro hall
        refine ⟨fun x hx => ?_, fun x h => hall x (.left h), fun x h => hall x (.right h)⟩
        obtain rfl := Option.some.inj hx
        exact hall feature (.here threshold left right)

/-- The greatest feature of several trees, with one that was seen before. -/
theorem foldl_greater?_lt_iff {trees : List Tree} :
    ∀ {seen : Option Nat},
      (∀ x ∈ trees.foldl (fun g tree => greater? g tree.greatestFeature?) seen, x < n) ↔
        (∀ x ∈ seen, x < n) ∧ ∀ tree ∈ trees, ∀ feature, tree.SplitsOn feature → feature < n := by
  induction trees with
  | nil => simp
  | cons first rest ih =>
      intro seen
      rw [List.foldl_cons, ih, greater?_lt_iff, greatestFeature?_lt_iff, List.forall_mem_cons,
        and_assoc]

end Tree

/-! ## Rankers -/

namespace RankerDefinition

/-- Whether a ranker can be made for a number of features: it has a weight for each, or
    splits on them only. -/
def Fits (features : Nat) : RankerDefinition → Prop
  | .linear weights _ => weights.length = features
  | .ensemble trees _ => ∀ tree ∈ trees, ∀ feature, tree.SplitsOn feature → feature < features
  | .null => True

variable {d : RankerDefinition} {name : String} {features : Nat}

/-- **A ranker is made just when it fits.** -/
theorem ranker_ok_iff : (∃ r, d.ranker name features = .ok r) ↔ d.Fits features := by
  cases d with
  | linear weights default =>
      rw [ranker, Fits]
      by_cases hcount : weights.length = features
      · simp [hcount]
      · simp [hcount]
  | ensemble trees default =>
      have hgreatest : (∀ x ∈ Tree.greatestOf? trees, x < features) ↔
          (RankerDefinition.ensemble trees default).Fits features :=
        Tree.foldl_greater?_lt_iff.trans (and_iff_right fun x h => absurd h (Option.not_mem_none x))
      rw [← hgreatest, ranker]
      cases Tree.greatestOf? trees with
      | none => exact iff_of_true ⟨_, rfl⟩ fun x h => absurd h (Option.not_mem_none x)
      | some feature =>
          by_cases hlt : feature < features
          · exact iff_of_true ⟨_, if_pos hlt⟩ fun _ h => Option.some.inj h ▸ hlt
          · refine iff_of_false ?_ fun hall => hlt (hall feature rfl)
            rintro ⟨r, hr⟩
            cases (if_neg hlt).symm.trans hr
  | null => exact iff_of_true ⟨.null features, rfl⟩ trivial

theorem featureCount_of_ranker {r : Ranker} (h : d.ranker name features = .ok r) :
    r.featureCount = features := by
  cases d with
  | linear weights default =>
      rw [ranker] at h
      split at h
      · next hcount =>
          rw [← Except.ok.inj h]
          exact hcount
      · exact nomatch h
  | ensemble trees default =>
      rw [ranker] at h
      split at h
      · split at h
        · rw [← Except.ok.inj h]
          rfl
        · exact nomatch h
      · rw [← Except.ok.inj h]
        rfl
  | null =>
      rw [← Except.ok.inj h]
      rfl

end RankerDefinition

/-! ## Sets -/

namespace FeatureSet

theorem repeated?_eq_none_iff {names : List String} :
    ∀ {earlier : List String}, repeated? earlier names = none ↔
      names.Nodup ∧ ∀ name ∈ names, name ∉ earlier := by
  induction names with
  | nil => simp [repeated?]
  | cons name rest ih =>
      intro earlier
      rw [repeated?]
      by_cases hseen : name ∈ earlier
      · simp [hseen]
      · rw [if_neg (by simpa using hseen), ih, List.nodup_cons, List.forall_mem_cons]
        constructor
        · rintro ⟨hrest, hnew⟩
          exact ⟨⟨fun hmem => hnew name hmem List.mem_cons_self, hrest⟩, hseen,
            fun x hx hmem => hnew x hx (List.mem_cons_of_mem _ hmem)⟩
        · rintro ⟨⟨hname, hrest⟩, -, hnew⟩
          refine ⟨hrest, fun x hx hmem => ?_⟩
          rcases List.mem_cons.mp hmem with rfl | hmem
          · exact hname hx
          · exact hnew x hx hmem

/-- **A set is made just when its names differ.** -/
theorem make_ok_iff {name : String} {features : List Feature} :
    (∃ set, make name features = .ok set) ↔ (features.map (·.name)).Nodup := by
  have hnone := @repeated?_eq_none_iff (features.map (·.name)) []
  rw [and_iff_left fun _ _ h => nomatch h] at hnone
  rw [← hnone, make]
  cases repeated? [] (features.map (·.name)) with
  | none => simp
  | some feature => simp

theorem name_of_make {name : String} {features : List Feature} {set : FeatureSet}
    (h : make name features = .ok set) : set.name = name := by
  rw [make] at h
  split at h
  · exact nomatch h
  · rw [← Except.ok.inj h]

end FeatureSet

/-- What a sum reads; another feature reads nothing. -/
def Template.inputs : Template → List DerivedInput
  | .derived inputs _ _ => inputs
  | .anyTerm _ | .phrase _ | .languageModel _ | .constant _ => []

namespace StoredFeatureSet

/-- **Names resolve just when all of them were seen before.** -/
theorem resolve_ok_iff {feature : String} {earlier : List String} {inputs : List DerivedInput} :
    (∃ resolved, resolve feature earlier inputs = .ok resolved) ↔
      ∀ input ∈ inputs, input.feature ∈ earlier := by
  induction inputs with
  | nil => exact iff_of_true ⟨[], rfl⟩ (List.forall_mem_nil _)
  | cons input rest ih =>
      rw [List.forall_mem_cons, ← ih, resolve]
      by_cases hseen : input.feature ∈ earlier
      · obtain ⟨ordinal, hordinal⟩ : ∃ ordinal, earlier.idxOf? input.feature = some ordinal :=
          Option.isSome_iff_exists.mp (List.isSome_idxOf?.mpr hseen)
        rw [hordinal, and_iff_right hseen]
        constructor
        · rintro ⟨_, h⟩
          obtain ⟨others, hothers, -⟩ := bind_eq_ok.mp h
          exact ⟨others, hothers⟩
        · rintro ⟨others, hothers⟩
          exact ⟨_, bind_eq_ok.mpr ⟨others, hothers, rfl⟩⟩
      · rw [List.idxOf?_eq_none_iff.mpr hseen]
        simp [hseen]

theorem compileFeature_ok_iff {earlier : List String} {f : StoredFeature} :
    (∃ feature, compileFeature earlier f = .ok feature) ↔
      ∀ input ∈ f.template.inputs, input.feature ∈ earlier := by
  rw [compileFeature]
  cases f.template with
  | derived inputs constant logged =>
      rw [Template.inputs, ← resolve_ok_iff]
      constructor
      · rintro ⟨_, h⟩
        obtain ⟨resolved, hresolved, -⟩ := bind_eq_ok.mp h
        exact ⟨resolved, hresolved⟩
      · rintro ⟨resolved, hresolved⟩
        exact ⟨_, bind_eq_ok.mpr ⟨resolved, hresolved, rfl⟩⟩
  | _ => exact iff_of_true ⟨_, rfl⟩ (List.forall_mem_nil _)

/-- **Features compile just when each reads names before its own.** -/
theorem compileFrom_ok_iff {stored : List StoredFeature} :
    ∀ {earlier : List String}, (∃ features, compileFrom earlier stored = .ok features) ↔
      ∀ i f, stored[i]? = some f → ∀ input ∈ f.template.inputs,
        input.feature ∈ earlier ++ (stored.take i).map (·.name) := by
  induction stored with
  | nil => exact fun {_} => iff_of_true ⟨[], rfl⟩ fun i f h => nomatch h
  | cons first rest ih =>
      intro earlier
      have hsteps : (∃ features, compileFrom earlier (first :: rest) = .ok features) ↔
          (∃ feature, compileFeature earlier first = .ok feature) ∧
            ∃ others, compileFrom (earlier ++ [first.name]) rest = .ok others := by
        constructor
        · rintro ⟨_, h⟩
          obtain ⟨feature, hfeature, h⟩ := bind_eq_ok.mp h
          obtain ⟨others, hothers, -⟩ := bind_eq_ok.mp h
          exact ⟨⟨feature, hfeature⟩, others, hothers⟩
        · rintro ⟨⟨feature, hfeature⟩, others, hothers⟩
          exact ⟨_, bind_eq_ok.mpr ⟨feature, hfeature, bind_eq_ok.mpr ⟨others, hothers, rfl⟩⟩⟩
      rw [hsteps, compileFeature_ok_iff, ih]
      constructor
      · rintro ⟨hfirst, hrest⟩ i f hi
        cases i with
        | zero =>
            obtain rfl := Option.some.inj hi
            simpa using hfirst
        | succ i => simpa using hrest i f hi
      · intro hall
        refine ⟨by simpa using hall 0 first rfl, fun i f hi => ?_⟩
        simpa using hall (i + 1) f hi

/-- Sums read features that stand before them. -/
def Backward (s : StoredFeatureSet) : Prop :=
  ∀ (i : Nat) (f : StoredFeature), s.features[i]? = some f → ∀ input ∈ f.template.inputs,
    ∃ j < i, s.names[j]? = some input.feature

theorem backward_iff {s : StoredFeatureSet} : s.Backward ↔
    ∀ i f, s.features[i]? = some f → ∀ input ∈ f.template.inputs,
      input.feature ∈ [] ++ (s.features.take i).map (·.name) := by
  have hbefore : ∀ (i : Nat) (name : String),
      (∃ j < i, s.names[j]? = some name) ↔ name ∈ [] ++ (s.features.take i).map (·.name) := by
    intro i name
    rw [List.nil_append, List.map_take, List.mem_iff_getElem?]
    constructor
    · rintro ⟨j, hj, hname⟩
      exact ⟨j, (List.getElem?_take_of_lt hj).trans hname⟩
    · rintro ⟨j, hname⟩
      have hj : j < i := by
        by_contra hle
        rw [List.getElem?_take_eq_none (Nat.not_lt.mp hle)] at hname
        exact nomatch hname
      exact ⟨j, hj, (List.getElem?_take_of_lt hj).symm.trans hname⟩
  simp only [Backward, hbefore]

/-- **A set compiles just when its names differ and its sums look back.** -/
theorem compile_ok_iff {s : StoredFeatureSet} :
    (∃ set, s.compile = .ok set) ↔ s.names.Nodup ∧ s.Backward := by
  rw [backward_iff, ← compileFrom_ok_iff]
  constructor
  · rintro ⟨set, h⟩
    obtain ⟨features, hfeatures, hmake⟩ := bind_eq_ok.mp h
    refine ⟨?_, features, hfeatures⟩
    rw [names, map_eq_of_forall₂ ((compileFrom_compiles hfeatures).imp fun _ _ h => h.name_eq)]
    exact FeatureSet.make_ok_iff.mp ⟨set, hmake⟩
  · rintro ⟨hdistinct, features, hfeatures⟩
    rw [names, map_eq_of_forall₂ ((compileFrom_compiles hfeatures).imp fun _ _ h => h.name_eq)]
      at hdistinct
    obtain ⟨set, hmake⟩ := FeatureSet.make_ok_iff.mpr hdistinct
    exact ⟨set, bind_eq_ok.mpr ⟨features, hfeatures, hmake⟩⟩

/-- Compiling keeps the names. -/
theorem compile_names {s : StoredFeatureSet} {set : FeatureSet} (h : s.compile = .ok set) :
    set.names = s.names :=
  (map_eq_of_forall₂ ((compile_features h).imp fun _ _ h => h.name_eq)).symm

end StoredFeatureSet

/-- **The ordinal of a name** is its place, where names differ. -/
theorem FeatureSet.ordinal?_eq_some {set : FeatureSet} (h : set.names.Nodup) {name : String}
    {i : Nat} (hi : set.names[i]? = some name) : set.ordinal? name = some i := by
  obtain ⟨hlt, hname⟩ := List.getElem?_eq_some_iff.mp hi
  refine List.idxOf?_eq_some_iff.mpr ⟨hlt, hname, fun j hj hsame => ?_⟩
  have hji : j = i := (List.Nodup.getElem_inj_iff h).mp (hsame.trans hname.symm)
  exact Nat.ne_of_lt hj hji

/-- A query that can be tied is tied under any boosts. -/
theorem Query.Bindable.boosts {query : Query} (h : query.Bindable) (factors : List Float32) :
    (factors.foldl Query.boost query).Bindable := by
  induction factors generalizing query with
  | nil => exact h
  | cons factor rest ih => exact @ih (query.boost factor) h

/-! ## Files -/

namespace ModelFile

/-- A file whose features have names of their own, whose sums read features before them
    only, and whose ranker fits the features. -/
structure WellFormed (file : ModelFile) : Prop where
  distinct : file.features.names.Nodup
  backward : file.features.Backward
  fits : file.definition.Fits file.features.features.length

/-- What a model keeps of a file: the names in their places, the features as they are
    stored but for the sums, whose inputs become the ordinals of the features that they
    name, and the ranker that is defined. -/
structure Describes (file : ModelFile) (model : Model) : Prop where
  name : model.name = file.name
  set : model.features.name = file.features.name
  names : model.features.names = file.features.names
  ordinal : ∀ (i : Nat) (name : String), file.features.names[i]? = some name →
    model.features.ordinal? name = some i
  stored : ∀ (i : Nat) (f : StoredFeature), file.features.features[i]? = some f →
    ¬f.template.IsDerived → model.features.features[i]? = some (.stored f)
  derived : ∀ (i : Nat) (f : StoredFeature) (inputs : List DerivedInput) (constant : Float32)
    (logged : Bool), file.features.features[i]? = some f →
    f.template = .derived inputs constant logged →
    ∃ resolved, model.features.features[i]? = some (.derived f.name
        ⟨resolved, constant, if logged then some f.name else none⟩) ∧
      List.Forall₂ (fun input x => model.features.ordinal? input.feature = some x.1 ∧
        x.1 < i ∧ x.2 = input.weight) inputs resolved
  ranker : file.definition.ranker file.name file.features.features.length = .ok model.ranker

variable {file : ModelFile} {compilation : Nat} {model : Model}

/-- **A compiled model comes from a set, a ranker for it, and nothing else.** -/
theorem compile_eq_ok_iff : file.compile compilation = .ok model ↔
    file.features.compile = .ok model.features ∧
      file.definition.ranker file.name file.features.features.length = .ok model.ranker ∧
      model.name = file.name ∧ model.compilation = compilation := by
  have hsize : ∀ {set : FeatureSet}, file.features.compile = .ok set →
      set.size = file.features.features.length :=
    fun h => (StoredFeatureSet.compile_features h).length_eq.symm
  have hmake : ∀ {set : FeatureSet} {ranker : Ranker}, file.features.compile = .ok set →
      file.definition.ranker file.name set.size = .ok ranker →
      Model.make file.name set ranker compilation = .ok ⟨file.name, set, ranker, compilation⟩ :=
    fun _ hranker => if_pos (RankerDefinition.featureCount_of_ranker hranker)
  constructor
  · intro h
    obtain ⟨set, hset, h⟩ := bind_eq_ok.mp h
    obtain ⟨ranker, hranker, h⟩ := bind_eq_ok.mp h
    rw [hmake hset hranker] at h
    rw [← Except.ok.inj h, ← hsize hset]
    exact ⟨hset, hranker, rfl, rfl⟩
  · rintro ⟨hset, hranker, hname, hcompilation⟩
    rw [← hsize hset] at hranker
    obtain ⟨name, set, ranker, mark⟩ := model
    obtain rfl : name = file.name := hname
    obtain rfl : mark = compilation := hcompilation
    exact bind_eq_ok.mpr ⟨set, hset, bind_eq_ok.mpr ⟨ranker, hranker, hmake hset hranker⟩⟩

/-- **A file compiles just when it is well-formed.** -/
theorem compile_ok_iff : (∃ model, file.compile compilation = .ok model) ↔ file.WellFormed := by
  constructor
  · rintro ⟨model, h⟩
    obtain ⟨hset, hranker, -, -⟩ := compile_eq_ok_iff.mp h
    obtain ⟨hdistinct, hbackward⟩ := StoredFeatureSet.compile_ok_iff.mp ⟨_, hset⟩
    exact ⟨hdistinct, hbackward, RankerDefinition.ranker_ok_iff.mp ⟨_, hranker⟩⟩
  · rintro ⟨hdistinct, hbackward, hfits⟩
    obtain ⟨set, hset⟩ := StoredFeatureSet.compile_ok_iff.mpr ⟨hdistinct, hbackward⟩
    obtain ⟨ranker, hranker⟩ := (@RankerDefinition.ranker_ok_iff _ file.name _).mpr hfits
    exact ⟨⟨file.name, set, ranker, compilation⟩,
      compile_eq_ok_iff.mpr ⟨hset, hranker, rfl, rfl⟩⟩

/-- **A compiled model is what its file describes.** -/
theorem describes_of_compile (h : file.compile compilation = .ok model) :
    file.Describes model := by
  obtain ⟨hset, hranker, hname, -⟩ := compile_eq_ok_iff.mp h
  have hnames := StoredFeatureSet.compile_names hset
  have hdistinct : model.features.names.Nodup :=
    hnames ▸ (StoredFeatureSet.compile_ok_iff.mp ⟨_, hset⟩).1
  have hordinal : ∀ (i : Nat) (name : String), file.features.names[i]? = some name →
      model.features.ordinal? name = some i :=
    fun i name hi => FeatureSet.ordinal?_eq_some hdistinct (hnames ▸ hi)
  obtain ⟨features, -, hmake⟩ := bind_eq_ok.mp hset
  refine ⟨hname, FeatureSet.name_of_make hmake, hnames, hordinal, ?_, ?_, hranker⟩
  · intro i f hi hstored
    obtain ⟨feature, hfeature, hcompiles⟩ :=
      forall₂_getElem? (StoredFeatureSet.compile_features hset) hi
    rw [hfeature]
    cases hcompiles with
    | stored _ => rfl
    | sum hderived _ => exact absurd hderived hstored
  · intro i f inputs constant logged hi htemplate
    obtain ⟨⟨resolved, _, _⟩, hfeature, ⟨rfl, rfl⟩, hinputs⟩ :=
      StoredFeatureSet.compile_derived hset hi htemplate
    refine ⟨resolved, hfeature, hinputs.imp fun input x => ?_⟩
    rintro ⟨hplace, hlt, hweight⟩
    refine ⟨hordinal _ _ ?_, hlt, hweight⟩
    have hi' : i < file.features.names.length := by
      rw [StoredFeatureSet.names, List.length_map]
      exact (List.getElem?_eq_some_iff.mp hi).1
    have hin : file.features.names.idxOf input.feature < file.features.names.length := by
      rw [hplace]
      exact hlt.trans hi'
    rw [← hplace, List.getElem?_eq_getElem hin, List.getElem_idxOf]

/-- **Just the well-formed files compile, and what they compile to always runs.**  A file
    is compiled exactly when its names differ, its sums look back and its ranker fits.
    The model keeps the names in their places and resolves the inputs of sums to them.
    Once its features have queries, the ranking query over them has a weight wherever
    ranking is switched on, under any boosts, whichever searcher, mode and cache it is
    made with. -/
theorem accepts_well_formed (file : ModelFile) (compilation : Nat) :
    ((∃ model, file.compile compilation = .ok model) ↔ file.WellFormed) ∧
      ∀ model, file.compile compilation = .ok model → file.Describes model ∧
        ∀ context params queries, model.features.queries context params = .ok queries →
          ∃ q, RankingQuery.ofModel model context params = .ok q ∧ q.queries = queries ∧
            ∀ (factors : List Float32) (searcher : Searcher) (mode : ScoreMode)
              (cache : WeightCache), ∃ w,
              ((factors.foldl Query.boost (.ranking q)).weight searcher true mode cache).2
                = .ok w := by
  refine ⟨compile_ok_iff, fun model h => ⟨describes_of_compile h, ?_⟩⟩
  intro context params queries hqueries
  have hq : RankingQuery.ofModel model context params
      = .ok ⟨queries, model.features, model.ranker, model.compilation⟩ :=
    bind_eq_ok.mpr ⟨queries, hqueries, rfl⟩
  refine ⟨_, hq, rfl, fun factors searcher mode cache => ?_⟩
  have hbindable : (Query.ranking _).Bindable :=
    RankingQuery.bindable_of_compiled ⟨file, compilation, h⟩ hq
  rcases Query.weight_okIff (hbindable.boosts factors) searcher true mode cache with
    ⟨-, hok⟩ | ⟨hoff, -⟩
  · exact hok
  · exact absurd (.inl rfl) hoff

/-- A sum over a sum, ranked by a tree that splits on the last feature below another
    split: it compiles and has a weight, and splitting beyond the features does not. -/
theorem accepts_well_formed_nested_split :
    let file (feature : Nat) : ModelFile := {
      name := "m"
      features := ⟨"three", [⟨"two", [], .constant 2.0⟩,
        ⟨"seven", [], .derived [⟨"two", 3.0⟩] 1.0 true⟩,
        ⟨"more", [], .derived [⟨"seven", 0.5⟩, ⟨"two", 1.0⟩] 0.0 false⟩]⟩
      definition := .ensemble [.split 0 1.0 (.leaf 1.0)
        (.split feature 2.0 (.leaf 0.0) (.leaf 3.0))] 0.0 }
    (∃ model q w, (file 2).compile = .ok model ∧ model.features.ordinal? "seven" = some 1 ∧
      RankingQuery.ofModel model .empty [] = .ok q ∧
      (((Query.ranking q).boost 3.0).weight ⟨.empty, none⟩ true .scores .empty).2 = .ok w) ∧
    ¬∃ model, (file 3).compile = .ok model := by
  intro file
  constructor
  · have hmodel : (file 2).compile = .ok ⟨"m", ⟨"three", [.stored ⟨"two", [], .constant 2.0⟩,
        .derived "seven" ⟨[(0, 3.0)], 1.0, some "seven"⟩,
        .derived "more" ⟨[(1, 0.5), (0, 1.0)], 0.0, none⟩]⟩,
        .ensemble "m" [.split 0 1.0 (.leaf 1.0) (.split 2 2.0 (.leaf 0.0) (.leaf 3.0))] 3 0.0,
        0⟩ := rfl
    obtain ⟨hdescribes, hruns⟩ := (accepts_well_formed (file 2) 0).2 _ hmodel
    obtain ⟨q, hq, -, hweight⟩ := hruns .empty [] _ rfl
    obtain ⟨w, hw⟩ := hweight [3.0] ⟨.empty, none⟩ .scores .empty
    exact ⟨_, q, w, hmodel, hdescribes.ordinal 1 "seven" rfl, hq, hw⟩
  · rw [(accepts_well_formed (file 3) 0).1]
    intro h
    exact Nat.lt_irrefl 3 (h.fits _ List.mem_cons_self 3 (.right (.here _ _ _)))

end ModelFile

end FeatureRank
