/-
  Paths of generated files.

  * `path_inside_directory`: with valid settings the path for a class is the directory of its kind
    with one name behind it, which starts with the name of the class, so that no path leads out of
    its directory and no two classes share one.

  Two paths can be different texts and still lead to one file. So paths are told apart by where
  they lead from a working directory (`Path.location`).
-/
import PhpSharp.Proofs.Conversion.OutputFiles

namespace PhpSharp.Conversion

open Files (Location)

/-! ## Names that are looked for -/

/-- Whether some file stands for a class of this name. -/
def IsScanned (name : String) : Prop :=
  ∃ denylist entry isDirectory, classify denylist entry isDirectory = .described ∧
    Sdk.shortName entry = name

theorem not_mem_of_isIdentifier {name : String} (h : Sdk.isIdentifier name = true) :
    '.' ∉ name.toList := by
  intro hmem
  unfold Sdk.isIdentifier at h
  split at h
  · cases h
  · rename_i c cs hname
    obtain ⟨hc, hcs⟩ := Bool.and_eq_true_iff.1 h
    rw [hname] at hmem
    rcases List.mem_cons.1 hmem with rfl | hmem
    · exact absurd hc (by decide)
    · exact absurd (List.all_eq_true.1 hcs _ hmem) (by decide)

/-- The names that are looked for are those that generated code can use: the file of such a name
    alone stands for it. -/
theorem isScanned_iff {name : String} : IsScanned name ↔ Sdk.isClassName name = true := by
  constructor
  · rintro ⟨denylist, entry, isDirectory, hclass, rfl⟩
    exact isClassName_of_classify hclass
  · intro h
    have hpoint := not_mem_of_isIdentifier (Bool.and_eq_true_iff.1 h).1
    have hshort : Sdk.shortName name = name := by
      rw [Sdk.shortName, List.takeWhile_eq_self_iff.2, String.ofList_toList]
      intro c hc
      exact decide_eq_true fun he => hpoint (he ▸ hc)
    refine ⟨[], name, false, ?_, hshort⟩
    rw [classify, if_neg Bool.false_ne_true, hshort, if_pos h]
    rfl

/-! ## The file of a class -/

section
variable {o : Output} {st : Settings} {k : Sdk.Kind} {name name' : String}

theorem prefix_fileName : name.toList <+: (o.fileName name).toList := by
  unfold Output.fileName
  split
  · exact List.prefix_rfl
  · rw [String.toList_append, String.toList_append, List.append_assoc]
    exact List.prefix_append ..

theorem path_ofSettings : (Output.ofSettings st).path k name =
    (st.outputDirectory k).entry ((Output.ofSettings st).fileName name) := by
  have hdirectory : (Output.ofSettings st).directories.get k = st.outputDirectory k :=
    Sdk.PerKind.get_ofFn ..
  rw [Output.path, hdirectory]

/-- With one directory, other names lead elsewhere. -/
theorem location_path_ne (hv : st.fault? = none) (hname : Sdk.isClassName name = true)
    (hname' : Sdk.isClassName name' = true) (hne : name ≠ name') (base : Location) :
    ((Output.ofSettings st).path k name).location base ≠
      ((Output.ofSettings st).path k name').location base := by
  intro he
  obtain ⟨hempty, hslash, hdot, hdots⟩ := isEntry_fileName (noSlash_extension hv) hname
  obtain ⟨hempty', hslash', hdot', hdots'⟩ := isEntry_fileName (noSlash_extension hv) hname'
  rw [path_ofSettings, path_ofSettings, Path.location_entry hslash hempty hdot hdots,
    Path.location_entry hslash' hempty' hdot' hdots'] at he
  exact hne (fileName_injective (List.singleton_inj.1 (List.append_cancel_left he)))

end

/-- **Paths of generated files stay inside their directory** and do not collide.

    With valid settings, and for every name that is looked for:

    * the path is the directory of the kind with one name behind it. The name is not empty, has no
      slash, leads neither back nor nowhere, and starts with that of the class. So the file is a
      child of its directory, wherever that is;
    * in one directory different names have different files;
    * with the usual directories below any root, different kinds have different files as well. -/
theorem path_inside_directory {st : Settings} (hv : st.fault? = none) :
    (∀ k name, IsScanned name → ∃ file : String,
      (Output.ofSettings st).path k name = (st.outputDirectory k).join ⟨file⟩ ∧
        file ≠ "" ∧ file ≠ "." ∧ file ≠ ".." ∧ '/' ∉ file.toList ∧
        name.toList <+: file.toList ∧
        ((Output.ofSettings st).path k name).text = (st.outputDirectory k).text ++
          (if (st.outputDirectory k).needsSlash then "/" else "") ++ file ∧
        ∀ base : Location, ((Output.ofSettings st).path k name).location base =
          (st.outputDirectory k).location base ++ [file]) ∧
      (∀ k name name', IsScanned name → IsScanned name' → name ≠ name' →
        (Output.ofSettings st).path k name ≠ (Output.ofSettings st).path k name' ∧
          ∀ base : Location, ((Output.ofSettings st).path k name).location base ≠
            ((Output.ofSettings st).path k name').location base) ∧
      (st.outputs = Settings.defaults.outputs →
        ∀ k name k' name', IsScanned name → IsScanned name' → (k, name) ≠ (k', name') →
          (Output.ofSettings st).path k name ≠ (Output.ofSettings st).path k' name' ∧
            ∀ base : Location, ((Output.ofSettings st).path k name).location base ≠
              ((Output.ofSettings st).path k' name').location base) := by
  refine ⟨fun k name hname => ?_, fun k name name' hname hname' hne => ?_,
    fun ho k name k' name' hname hname' hne => ?_⟩
  · obtain ⟨hempty, hslash, hdot, hdots⟩ :=
      isEntry_fileName (noSlash_extension hv) (isScanned_iff.1 hname)
    refine ⟨(Output.ofSettings st).fileName name, path_ofSettings, hempty, hdot, hdots, hslash,
      prefix_fileName, ?_, fun base => ?_⟩
    · rw [path_ofSettings, Path.text_entry hslash]
    · rw [path_ofSettings, Path.location_entry hslash hempty hdot hdots]
  · have hapart := location_path_ne (k := k) hv (isScanned_iff.1 hname) (isScanned_iff.1 hname') hne
    exact ⟨fun he => hapart [] (by rw [he]), hapart⟩
  · have hapart : ∀ base : Location, ((Output.ofSettings st).path k name).location base ≠
        ((Output.ofSettings st).path k' name').location base := by
      intro base he
      obtain ⟨rfl, rfl⟩ :=
        location_path_injective hv ho (isScanned_iff.1 hname) (isScanned_iff.1 hname') he
      exact hne rfl
    exact ⟨fun he => hapart [] (by rw [he]), hapart⟩

/-- Settings with the root of the disk as directory, and points in front of the extension. -/
def rootSettings : Settings :=
  { Settings.defaults with outputRoot := ⟨"/"⟩, extension := "..g.cs" }

theorem path_inside_directory_root :
    (Output.ofSettings rootSettings).path .values "AdFields" = ⟨"/Output/Values/AdFields.g.cs"⟩ ∧
      (∃ file : String, (Output.ofSettings rootSettings).path .values "AdFields" =
        (rootSettings.outputDirectory .values).join ⟨file⟩ ∧ '/' ∉ file.toList) ∧
      ∀ base : Location, ((Output.ofSettings rootSettings).path .object "Values").location base ≠
        ((Output.ofSettings rootSettings).path .values "Values").location base := by
  obtain ⟨hinside, -, hkinds⟩ := @path_inside_directory rootSettings (by decide +kernel)
  have hscanned : ∀ name, Sdk.isClassName name = true → IsScanned name := fun _ =>
    isScanned_iff.2
  refine ⟨by decide +kernel, ?_, ?_⟩
  · obtain ⟨file, hpath, -, -, -, hslash, -⟩ := hinside .values "AdFields" (hscanned _ (by decide))
    exact ⟨file, hpath, hslash⟩
  · exact (hkinds rfl .object "Values" .values "Values" (hscanned _ (by decide))
      (hscanned _ (by decide)) (by decide)).2

end PhpSharp.Conversion
