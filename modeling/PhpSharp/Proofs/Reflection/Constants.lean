/-
  The two ways to read the constants of a class.

  `enumerationConstants` ends at the first constant at fault, `knownConstants` leaves out what is
  at fault and goes on. Both go through the declarations with the constants so far, by the same
  step: a declaration adds its constant (`Adds`) or is at fault (`Fails`).

  * `Lists` says what the constants of declarations without fault are: one for each declaration,
    in order, with the value that it has over those before it;
  * `strict_lenient_agree`: when the first way succeeds, with what it ends otherwise, and what the
    second way gives then.
-/
import Mathlib.Data.List.Induction
import PhpSharp.Proofs.Php.ExpressionGrammar
import PhpSharp.Reflection.Reflect

namespace PhpSharp.Sdk.Constants

/-- The first constants. -/
def first (m : Constants) (n : Nat) : Constants where
  entries := m.entries.take n
  nodup := m.nodup.sublist ((List.take_sublist n m.entries).map Prod.fst)

theorem names_first (m : Constants) (n : Nat) : (m.first n).names = m.names.take n := by
  simp [names, first, List.map_take]

/-- Constants with one more are those with its name and value behind them. -/
theorem insert?_eq_some_iff {m all : Constants} {name value : String} :
    m.insert? name value = some all ↔ all.entries = m.entries ++ [(name, value)] := by
  constructor
  · exact entries_of_insert?
  · intro h
    have hnodup := all.nodup
    rw [h, List.map_append, List.nodup_append] at hnodup
    have hfresh : name ∉ m.names := fun hm => hnodup.2.2 _ hm _ (by simp) rfl
    rw [insert?, dif_neg hfresh]
    exact congrArg some (ext h.symm)

theorem names_of_insert? {m all : Constants} {name value : String}
    (h : m.insert? name value = some all) : all.names = m.names ++ [name] := by
  simp [names, entries_of_insert? h]

/-- What is put behind constants leaves them the first ones. -/
theorem first_of_insert? {m all : Constants} {name value : String}
    (h : m.insert? name value = some all) {n : Nat} (hn : n ≤ m.size) :
    all.first n = m.first n := by
  apply ext
  show all.entries.take n = m.entries.take n
  rw [entries_of_insert? h, List.take_append_of_le_length hn]

end PhpSharp.Sdk.Constants

namespace PhpSharp.Reflection

open Php (ConstantDecl Scope)
open Sdk (Constants)

/-! ## One declaration -/

/-- A declaration adds its constant: it has a value, and its name is not taken. -/
inductive Adds (s : Scope) (d : ConstantDecl) (all : Constants) : Prop
  | intro {value : String} (value_eq : s.evaluate d.value = .ok value)
      (insert_eq : s.known.insert? d.name value = some all)

/-- A declaration is at fault: it has no value, or one for a name that is taken. -/
inductive Fails (s : Scope) (d : ConstantDecl) : ConstantFault → Prop
  | noValue {fault : Php.EvalFault} (h : s.evaluate d.value = .error fault) :
      Fails s d (.noValue fault)
  | declaredTwice {value : String} (h : s.evaluate d.value = .ok value)
      (htaken : d.name ∈ s.known.names) : Fails s d .declaredTwice

section
variable {className name value : String} {known m all : Constants} {d : ConstantDecl}
  {ds es : List ConstantDecl} {fault : ConstantFault}

theorem adds_or_fails (s : Scope) (d : ConstantDecl) :
    (∃ all, Adds s d all) ∨ ∃ fault, Fails s d fault := by
  cases hvalue : s.evaluate d.value with
  | error fault => exact .inr ⟨_, .noValue hvalue⟩
  | ok value =>
    cases hinsert : s.known.insert? d.name value with
    | none => exact .inr ⟨_, .declaredTwice hvalue (Constants.insert?_eq_none_iff.1 hinsert)⟩
    | some all => exact .inl ⟨all, .intro hvalue hinsert⟩

theorem declareAll_of_adds (h : Adds ⟨className, known⟩ d m) :
    declareAll className known (d :: ds) = declareAll className m ds := by
  obtain ⟨hvalue, hinsert⟩ := h
  simp only [declareAll, hvalue, hinsert]

theorem declareAll_of_fails (h : Fails ⟨className, known⟩ d fault) :
    declareAll className known (d :: ds) = .error (d, fault) := by
  cases h with
  | noValue hvalue => simp only [declareAll, hvalue]
  | declaredTwice hvalue htaken =>
    simp only [declareAll, hvalue, Constants.insert?_eq_none_iff.2 htaken]

theorem declareEach_of_adds (h : Adds ⟨className, known⟩ d m) :
    (declareEach className known (d :: ds)).1 = (declareEach className m ds).1 := by
  obtain ⟨hvalue, hinsert⟩ := h
  simp only [declareEach, hvalue, hinsert]

theorem declareEach_of_fails (h : Fails ⟨className, known⟩ d fault) :
    (declareEach className known (d :: ds)).1 = (declareEach className known ds).1 := by
  cases h with
  | noValue hvalue => simp only [declareEach, hvalue]
  | declaredTwice hvalue htaken =>
    simp only [declareEach, hvalue, Constants.insert?_eq_none_iff.2 htaken]

/-! ## Declarations one behind the other -/

theorem declareAll_append (h : declareAll className known ds = .ok m) :
    declareAll className known (ds ++ es) = declareAll className m es := by
  induction ds generalizing known with
  | nil =>
    cases h
    rfl
  | cons d ds ih =>
    rcases adds_or_fails ⟨className, known⟩ d with ⟨next, hd⟩ | ⟨fault, hd⟩
    · rw [declareAll_of_adds hd] at h
      rw [List.cons_append, declareAll_of_adds hd, ih h]
    · rw [declareAll_of_fails hd] at h
      cases h

theorem declareEach_append : (declareEach className known (ds ++ es)).1 =
    (declareEach className (declareEach className known ds).1 es).1 := by
  induction ds generalizing known with
  | nil => rfl
  | cons d ds ih =>
    rcases adds_or_fails ⟨className, known⟩ d with ⟨next, hd⟩ | ⟨fault, hd⟩
    · rw [List.cons_append, declareEach_of_adds hd, declareEach_of_adds hd, ih]
    · rw [List.cons_append, declareEach_of_fails hd, declareEach_of_fails hd, ih]

/-- What ends the first way is a declaration behind others that end well. -/
theorem declareAll_eq_error_iff : declareAll className known ds = .error (d, fault) ↔
    ∃ front behind m, ds = front ++ d :: behind ∧ declareAll className known front = .ok m ∧
      Fails ⟨className, m⟩ d fault := by
  constructor
  · intro h
    induction ds generalizing known with
    | nil => cases h
    | cons first ds ih =>
      rcases adds_or_fails ⟨className, known⟩ first with ⟨next, hd⟩ | ⟨fault', hd⟩
      · rw [declareAll_of_adds hd] at h
        obtain ⟨front, behind, m, rfl, hfront, hfails⟩ := ih h
        exact ⟨first :: front, behind, m, rfl, (declareAll_of_adds hd).trans hfront, hfails⟩
      · rw [declareAll_of_fails hd] at h
        cases h
        exact ⟨[], ds, known, rfl, rfl, hd⟩
  · rintro ⟨front, behind, m, rfl, hfront, hfails⟩
    rw [declareAll_append hfront, declareAll_of_fails hfails]

/-- Declarations end well if all but the last do and the last adds its constant. -/
theorem declareAll_concat : declareAll className known (ds ++ [d]) = .ok all ↔
    ∃ m, declareAll className known ds = .ok m ∧ Adds ⟨className, m⟩ d all := by
  constructor
  · intro h
    cases hds : declareAll className known ds with
    | error e =>
      obtain ⟨front, behind, m, rfl, hfront, hfails⟩ := declareAll_eq_error_iff.1 hds
      rw [List.append_assoc, declareAll_append hfront, List.cons_append,
        declareAll_of_fails hfails] at h
      cases h
    | ok m =>
      refine ⟨m, rfl, ?_⟩
      rw [declareAll_append hds] at h
      rcases adds_or_fails ⟨className, m⟩ d with ⟨next, hd⟩ | ⟨fault, hd⟩
      · rw [declareAll_of_adds hd] at h
        cases h
        exact hd
      · rw [declareAll_of_fails hd] at h
        cases h
  · rintro ⟨m, hds, hd⟩
    rw [declareAll_append hds, declareAll_of_adds hd]
    rfl

/-! ## Constants that are listed -/

/-- `m` lists the constants of declarations: their names in order, each with the value of its
    declaration over the constants before it. -/
structure Lists (className : String) (ds : List ConstantDecl) (m : Constants) : Prop where
  names : m.names = ds.map ConstantDecl.name
  value : ∀ i d, ds[i]? = some d → ∃ value, m.entries[i]? = some (d.name, value) ∧
    Scope.evaluate ⟨className, m.first i⟩ d.value = .ok value

theorem Lists.size (h : Lists className ds m) : m.size = ds.length := by
  have hlength := congrArg List.length h.names
  simpa [Constants.names, Constants.size] using hlength

theorem Lists.first_size (h : Lists className ds m) : m.first ds.length = m := by
  apply Constants.ext
  show m.entries.take ds.length = m.entries
  rw [← h.size, Constants.size, List.take_length]

theorem getElem?_concat_cases {d' : ConstantDecl} {i : Nat} (h : (ds ++ [d])[i]? = some d') :
    ds[i]? = some d' ∨ i = ds.length ∧ d' = d := by
  rcases Nat.lt_or_ge i ds.length with hi | hi
  · rw [List.getElem?_append_left hi] at h
    exact .inl h
  · rw [List.getElem?_append_right hi] at h
    obtain ⟨hlt, rfl⟩ := List.getElem?_eq_some_iff.1 h
    rw [List.length_singleton] at hlt
    exact .inr ⟨by omega, List.getElem_singleton _⟩

theorem lists_concat : Lists className (ds ++ [d]) all ↔
    ∃ m, Lists className ds m ∧ Adds ⟨className, m⟩ d all := by
  constructor
  · intro h
    have hfirst : ∀ i, i ≤ ds.length → (all.first ds.length).first i = all.first i := by
      intro i hi
      apply Constants.ext
      show (all.entries.take ds.length).take i = all.entries.take i
      rw [List.take_take, min_eq_left hi]
    refine ⟨all.first ds.length, ⟨?_, fun i d' hd' => ?_⟩, ?_⟩
    · rw [Constants.names_first, h.names, List.map_append, List.take_left' (List.length_map ..)]
    · have hi : i < ds.length := (List.getElem?_eq_some_iff.1 hd').1
      obtain ⟨value, hentry, hvalue⟩ := h.value i d' (by rw [List.getElem?_append_left hi, hd'])
      refine ⟨value, ?_, by rwa [hfirst i hi.le]⟩
      show (all.entries.take ds.length)[i]? = _
      rw [List.getElem?_take_of_lt hi, hentry]
    · obtain ⟨value, hentry, hvalue⟩ := h.value ds.length d (by simp)
      refine .intro hvalue (Constants.insert?_eq_some_iff.2 ?_)
      have hsize : all.entries.length = ds.length + 1 := h.size.trans (by simp)
      show all.entries = all.entries.take ds.length ++ [(d.name, value)]
      rw [← Option.toList_some, ← hentry, ← List.take_add_one, ← hsize, List.take_length]
  · rintro ⟨m, h, @⟨value, hvalue, hinsert⟩⟩
    have hentries := Constants.entries_of_insert? hinsert
    refine ⟨?_, fun i d' hd' => ?_⟩
    · rw [Constants.names_of_insert? hinsert, h.names, List.map_append]
      rfl
    · rcases getElem?_concat_cases hd' with hd' | ⟨rfl, rfl⟩
      · obtain ⟨value', hentry, hvalue'⟩ := h.value i d' hd'
        have hsize : i < m.entries.length := (List.getElem?_eq_some_iff.1 hentry).1
        refine ⟨value', ?_, ?_⟩
        · rw [hentries, List.getElem?_append_left hsize, hentry]
        · rwa [Constants.first_of_insert? hinsert hsize.le]
      · refine ⟨value, ?_, ?_⟩
        · rw [hentries, ← h.size, Constants.size, List.getElem?_concat_length]
        · rwa [Constants.first_of_insert? hinsert h.size.ge, h.first_size]

/-- **The first way ends well exactly if the constants can be listed.** -/
theorem declareAll_eq_ok_iff : declareAll className .empty ds = .ok m ↔ Lists className ds m := by
  induction ds using List.reverseRecOn generalizing m with
  | nil =>
    have hempty : Lists className [] m ↔ m = .empty := by
      constructor
      · intro h
        apply Constants.ext
        exact List.map_eq_nil_iff.1 h.names
      · rintro rfl
        exact ⟨rfl, fun i d hd => by simp at hd⟩
    rw [hempty, declareAll, Except.ok.injEq, eq_comm]
  | append_singleton ds d ih => simp only [declareAll_concat, lists_concat, ih]

theorem Lists.unique {m' : Constants} (h : Lists className ds m) (h' : Lists className ds m') :
    m = m' :=
  Except.ok.inj ((declareAll_eq_ok_iff.2 h).symm.trans (declareAll_eq_ok_iff.2 h'))

/-- The first of declarations whose constants can be listed have the first of the constants. -/
theorem Lists.front {front behind : List ConstantDecl}
    (h : Lists className (front ++ behind) m) : Lists className front (m.first front.length) := by
  induction behind using List.reverseRecOn generalizing m with
  | nil =>
    rw [List.append_nil] at h
    rwa [h.first_size]
  | append_singleton behind d ih =>
    rw [← List.append_assoc, lists_concat] at h
    obtain ⟨m', h, -, hinsert⟩ := h
    have hle : front.length ≤ m'.size := by
      rw [h.size, List.length_append]
      exact Nat.le_add_right ..
    rw [Constants.first_of_insert? hinsert hle]
    exact ih h

/-- The first way ends well exactly if no name occurs twice and every declaration has a value over
    the constants that those before it list. -/
theorem exists_lists_iff : (∃ m, Lists className ds m) ↔
    (ds.map ConstantDecl.name).Nodup ∧ ∀ front d behind, ds = front ++ d :: behind →
      ∃ m value, Lists className front m ∧ Scope.evaluate ⟨className, m⟩ d.value = .ok value := by
  constructor
  · rintro ⟨m, h⟩
    refine ⟨h.names ▸ m.nodup, ?_⟩
    rintro front d behind rfl
    obtain ⟨value, -, hvalue⟩ := h.value front.length d (by simp)
    exact ⟨_, value, h.front, hvalue⟩
  · rintro ⟨hnodup, hvalues⟩
    cases hds : declareAll className .empty ds with
    | ok m => exact ⟨m, declareAll_eq_ok_iff.1 hds⟩
    | error e =>
      -- the declaration that ends it has a value, and its name is none of those before it
      obtain ⟨d, fault⟩ := e
      obtain ⟨front, behind, m, rfl, hfront, hfails⟩ := declareAll_eq_error_iff.1 hds
      obtain ⟨m', value, hfront', hvalue⟩ := hvalues front d behind rfl
      have hlists := declareAll_eq_ok_iff.1 hfront
      rw [hfront'.unique hlists] at hvalue
      cases hfails with
      | noValue herror => cases hvalue.symm.trans herror
      | declaredTwice _ htaken =>
        rw [show Scope.known ⟨className, m⟩ = m from rfl, hlists.names] at htaken
        rw [List.map_append, List.map_cons, List.nodup_append] at hnodup
        exact absurd rfl (hnodup.2.2 _ htaken _ (List.mem_cons_self ..))

/-! ## Constants that have a value -/

/-- The constants of declarations that have a value. -/
def valued (className : String) (ds : List ConstantDecl) : Constants :=
  (declareEach className .empty ds).1

/-- One declaration more adds its constant or nothing. -/
theorem valued_concat (className : String) (ds : List ConstantDecl) (d : ConstantDecl) :
    Adds ⟨className, valued className ds⟩ d (valued className (ds ++ [d])) ∨
      (∃ fault, Fails ⟨className, valued className ds⟩ d fault) ∧
        valued className (ds ++ [d]) = valued className ds := by
  rcases adds_or_fails ⟨className, valued className ds⟩ d with ⟨next, hd⟩ | ⟨fault, hd⟩
  · left
    rwa [show valued className (ds ++ [d]) = next from
      declareEach_append.trans (declareEach_of_adds hd)]
  · exact .inr ⟨⟨fault, hd⟩, declareEach_append.trans (declareEach_of_fails hd)⟩

theorem valued_of_lists (h : Lists className ds m) : valued className ds = m := by
  induction ds using List.reverseRecOn generalizing m with
  | nil => exact Except.ok.inj (declareAll_eq_ok_iff.2 h)
  | append_singleton ds d ih =>
    obtain ⟨m, hds, hd⟩ := lists_concat.1 h
    obtain rfl := ih hds
    exact declareEach_append.trans (declareEach_of_adds hd)

/-- Further declarations leave the constants that are known the first ones. -/
theorem valued_prefix (className : String) (front behind : List ConstantDecl) :
    (valued className front).entries <+: (valued className (front ++ behind)).entries := by
  induction behind using List.reverseRecOn with
  | nil =>
    rewrite [List.append_nil]
    exact List.prefix_rfl
  | append_singleton behind d ih =>
    rw [← List.append_assoc]
    rcases valued_concat className (front ++ behind) d with ⟨-, hinsert⟩ | ⟨-, he⟩
    · rw [Constants.entries_of_insert? hinsert]
      exact ih.trans (List.prefix_append ..)
    · rwa [he]

theorem names_valued_sublist (className : String) (ds : List ConstantDecl) :
    (valued className ds).names.Sublist (ds.map ConstantDecl.name) := by
  induction ds using List.reverseRecOn with
  | nil => exact List.nil_sublist _
  | append_singleton ds d ih =>
    rw [List.map_append]
    rcases valued_concat className ds d with ⟨-, hinsert⟩ | ⟨-, he⟩
    · rw [Constants.names_of_insert? hinsert]
      exact ih.append (List.Sublist.refl _)
    · rw [he]
      exact ih.trans (List.sublist_append_left ..)

/-- The declaration behind `front` gives a name a value: it has that one over the constants that
    are known before it. -/
inductive Gives (className : String) (ds : List ConstantDecl) (name : String)
    (front : List ConstantDecl) (value : String) : Prop
  | intro {d : ConstantDecl} {behind : List ConstantDecl} (split : ds = front ++ d :: behind)
      (name_eq : d.name = name)
      (value_eq : Scope.evaluate ⟨className, valued className front⟩ d.value = .ok value)

/-- The first declaration that gives a name a value gives it this one. -/
def GivesFirst (className : String) (ds : List ConstantDecl) (name value : String) : Prop :=
  ∃ front, Gives className ds name front value ∧
    ∀ front' value', Gives className ds name front' value' → front.length ≤ front'.length

theorem Gives.length_lt {front : List ConstantDecl} (h : Gives className ds name front value) :
    front.length < ds.length := by
  obtain ⟨rfl, -, -⟩ := h
  simp

theorem gives_concat {front : List ConstantDecl} :
    Gives className (ds ++ [d]) name front value ↔ Gives className ds name front value ∨
      front = ds ∧ d.name = name ∧
        Scope.evaluate ⟨className, valued className ds⟩ d.value = .ok value := by
  constructor
  · rintro @⟨d', behind, split, hname, hvalue⟩
    rcases List.eq_nil_or_concat behind with rfl | ⟨behind, last, rfl⟩
    · obtain ⟨rfl, hd⟩ := List.append_inj' split rfl
      obtain rfl := List.singleton_inj.1 hd
      exact .inr ⟨rfl, hname, hvalue⟩
    · rw [List.concat_eq_append, ← List.cons_append, ← List.append_assoc] at split
      exact .inl ⟨(List.append_inj' split rfl).1, hname, hvalue⟩
  · rintro (@⟨d', behind, rfl, hname, hvalue⟩ | ⟨rfl, hname, hvalue⟩)
    · exact @Gives.intro _ _ _ _ _ d' (behind ++ [d]) (by simp) hname hvalue
    · exact ⟨rfl, hname, hvalue⟩

/-- A declaration more adds an entry if it has a value and its name is not known. -/
theorem mem_entries_concat : (name, value) ∈ (valued className (ds ++ [d])).entries ↔
    (name, value) ∈ (valued className ds).entries ∨ name ∉ (valued className ds).names ∧
      d.name = name ∧ Scope.evaluate ⟨className, valued className ds⟩ d.value = .ok value := by
  rcases valued_concat className ds d with @⟨value', hvalue, hinsert⟩ | ⟨⟨fault, hd⟩, he⟩
  · have hfresh : d.name ∉ (valued className ds).names := fun hm =>
      Option.some_ne_none _ (hinsert.symm.trans (Constants.insert?_eq_none_iff.2 hm))
    rw [Constants.entries_of_insert? hinsert, List.mem_append, List.mem_singleton, Prod.mk.injEq,
      hvalue, Except.ok.injEq]
    constructor
    · rintro (h | ⟨rfl, rfl⟩)
      · exact .inl h
      · exact .inr ⟨hfresh, rfl, rfl⟩
    · rintro (h | ⟨-, rfl, rfl⟩)
      · exact .inl h
      · exact .inr ⟨rfl, rfl⟩
  · rw [he]
    refine (or_iff_left ?_).symm
    rintro ⟨hfresh, rfl, hvalue⟩
    cases hd with
    | noValue herror => cases hvalue.symm.trans herror
    | declaredTwice _ htaken => exact hfresh htaken

/-- The names that are known are those that a declaration gives a value. -/
theorem mem_names_valued : name ∈ (valued className ds).names ↔
    ∃ front value, Gives className ds name front value := by
  have hnames : ∀ ds, name ∈ (valued className ds).names ↔
      ∃ value, (name, value) ∈ (valued className ds).entries := fun ds => by
    simp [Constants.names]
  induction ds using List.reverseRecOn with
  | nil =>
    constructor
    · intro h
      cases h
    · rintro ⟨front, value, h⟩
      exact absurd h.length_lt (Nat.not_lt_zero _)
  | append_singleton ds d ih =>
    simp only [hnames (ds ++ [d]), mem_entries_concat, gives_concat, exists_or, ← hnames, ← ih,
      exists_and_left, exists_eq_left]
    by_cases hm : name ∈ (valued className ds).names <;> simp [hm]

/-- **The first declaration that has a value** is the one whose value a name has. -/
theorem mem_entries_valued : (name, value) ∈ (valued className ds).entries ↔
    GivesFirst className ds name value := by
  induction ds using List.reverseRecOn with
  | nil =>
    constructor
    · intro h
      cases h
    · rintro ⟨front, h, -⟩
      exact absurd h.length_lt (Nat.not_lt_zero _)
  | append_singleton ds d ih =>
    rw [mem_entries_concat, ih, mem_names_valued]
    constructor
    · rintro (⟨front, hgives, hfirst⟩ | ⟨hnone, hlast⟩)
      · refine ⟨front, gives_concat.2 (.inl hgives), fun front' value' h' => ?_⟩
        rcases gives_concat.1 h' with h' | ⟨rfl, -⟩
        · exact hfirst front' value' h'
        · exact hgives.length_lt.le
      · refine ⟨ds, gives_concat.2 (.inr ⟨rfl, hlast⟩), fun front' value' h' => ?_⟩
        rcases gives_concat.1 h' with h' | ⟨rfl, -⟩
        · exact absurd ⟨front', value', h'⟩ hnone
        · exact le_rfl
    · rintro ⟨front, hgives, hfirst⟩
      rcases gives_concat.1 hgives with h | ⟨rfl, hlast⟩
      · exact .inl ⟨front, h, fun front' value' h' =>
          hfirst front' value' (gives_concat.2 (.inl h'))⟩
      · refine .inr ⟨?_, hlast⟩
        rintro ⟨front', value', h'⟩
        exact absurd h'.length_lt (Nat.not_lt.2 (hfirst front' value' (gives_concat.2 (.inl h'))))

end

/-! ## The two ways agree -/

/-- What a class of constants is refused for names the constant at fault and its line. -/
theorem classFacts_of_error {c : Php.ClassDecl} {d : ConstantDecl} {fault : ConstantFault}
    (h : enumerationConstants c = .error (d, fault)) (sources : String → Option String)
    {k : Sdk.Kind} (hk : k.isEnumeration = true) :
    (classFacts sources c k).1 = .error (.constant d.name d.line fault) := by
  cases k with
  | object => cases hk
  | fields | values => simp only [classFacts, h]

/-- **Strict and lenient evaluation of constants agree.**

    For every class:

    * the strict one ends well exactly if no name is declared twice and every constant has a value
      over the map of those before it. It then gives the map that lists the declared names in order
      with these values, and the lenient one gives the same;
    * otherwise it ends with the first constant that has no value over the map of those before it
      or takes a name of theirs, and the class is refused for this constant, by its name. What the
      lenient one gives starts with that map;
    * the names that the lenient one gives are pairwise different, in the order in which they are
      declared, and each has the value of its first declaration that has one. -/
theorem strict_lenient_agree (c : Php.ClassDecl) :
    (∀ m, enumerationConstants c = .ok m ↔ Lists c.name c.constants m) ∧
      ((∃ m, enumerationConstants c = .ok m) ↔
        (c.constants.map ConstantDecl.name).Nodup ∧
          ∀ front d behind, c.constants = front ++ d :: behind → ∃ m value,
            Lists c.name front m ∧ Scope.evaluate ⟨c.name, m⟩ d.value = .ok value) ∧
      (∀ m, enumerationConstants c = .ok m → knownConstants c = m) ∧
      (∀ d fault, enumerationConstants c = .error (d, fault) ↔
        ∃ front behind m, c.constants = front ++ d :: behind ∧ Lists c.name front m ∧
          Fails ⟨c.name, m⟩ d fault ∧ m.entries <+: (knownConstants c).entries) ∧
      (∀ d fault, enumerationConstants c = .error (d, fault) → ∀ sources k,
        k.isEnumeration = true →
          (classFacts sources c k).1 = .error (.constant d.name d.line fault)) ∧
      (knownConstants c).names.Nodup ∧
      (knownConstants c).names.Sublist (c.constants.map ConstantDecl.name) ∧
      ∀ name value, (knownConstants c).get? name = some value ↔
        GivesFirst c.name c.constants name value := by
  have hlists : ∀ m, enumerationConstants c = .ok m ↔ Lists c.name c.constants m := fun _ =>
    declareAll_eq_ok_iff
  refine ⟨hlists, ?_, fun m h => valued_of_lists ((hlists m).1 h), fun d fault => ?_,
    fun d fault h sources k => classFacts_of_error h sources, (knownConstants c).nodup,
    names_valued_sublist c.name c.constants, fun name value => ?_⟩
  · simp only [hlists, exists_lists_iff]
  · rw [enumerationConstants, declareAll_eq_error_iff]
    constructor
    · rintro ⟨front, behind, m, hsplit, hfront, hfails⟩
      have hm := declareAll_eq_ok_iff.1 hfront
      refine ⟨front, behind, m, hsplit, hm, hfails, ?_⟩
      have hprefix := valued_prefix c.name front (d :: behind)
      rwa [valued_of_lists hm, ← hsplit] at hprefix
    · rintro ⟨front, behind, m, hsplit, hm, hfails, -⟩
      exact ⟨front, behind, m, hsplit, declareAll_eq_ok_iff.2 hm, hfails⟩
  · rw [Php.Scope.get?_eq_some_iff]
    exact mem_entries_valued

end PhpSharp.Reflection
