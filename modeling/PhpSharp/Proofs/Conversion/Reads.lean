/-
  Which files are read for the facts of a class.

  * `reflect_asks`: its source, and then the files of the classes that the source needs; nothing
    else is asked of the system;
  * `reflect_reads`: these files stand in the directory for objects itself, whatever the source is.
-/
import PhpSharp.Proofs.Conversion.ObjectRoot
import PhpSharp.Proofs.Files.Recorded

namespace PhpSharp.Conversion

open Files

variable {σ : Type} [Host (StateM σ)] {s : σ} {st : Settings} {d : Sdk.Descriptor}

/-- The files of the classes that the answer for a source needs. -/
def otherFiles (st : Settings) (d : Sdk.Descriptor) : Except OsError String → List Path
  | .ok source => (Reflection.neededClasses d source).map (objectFile st)
  | .error _ => []

theorem readSources_asks (root : Path) (names : List String) :
    Asks s (readSources root names) (readSources root names)
      (names.map fun name => root.entry (name ++ ".php")) := by
  refine Asks.mapM (fun name s => ?_) names s
  exact (asks_call [_] _).bind (asks_pure _)

/-- **What reading the facts of a class asks of a system:** the source of the class, and the files
    of the classes that this source needs. -/
theorem reflect_asks (st : Settings) (d : Sdk.Descriptor) (s : σ) :
    Asks s (reflect st d) (reflect st d)
      (d.sourceFile :: otherFiles st d ((Host.readText d.sourceFile : StateM σ _).run s).1) := by
  rw [← List.singleton_append, reflect, reflect]
  refine (asks_call [d.sourceFile] (Host.readText d.sourceFile)).bind ?_
  rcases (Host.readText d.sourceFile : StateM σ _).run s with ⟨e | source, s'⟩
  · exact asks_pure _
  · -- the log is told and the answer given without another path
    rw [← List.append_nil (otherFiles ..)]
    refine (readSources_asks _ _).bind ?_
    dsimp only
    generalize Reflection.reflect st.sourceNamespaces _ d source = answer
    obtain ⟨result, entries⟩ := answer
    rw [← List.append_nil []]
    refine (Asks.forM (fun e s => asks_call [] (Host.log e)) entries _).bind ?_
    cases result <;> exact asks_pure _

/-- **Only the source and files of the directory for objects are read.** Whatever the system
    answers, and whatever the source is, the paths that reading the facts of a class names are that
    of the source and those of files in the directory for objects, whose names lead nowhere else.
    Nor have other sources a part in the facts of a source that is at hand. -/
theorem reflect_reads (st : Settings) (d : Sdk.Descriptor) (s : σ) :
    let done := (reflect st d : StateM (Recorded σ) _).run ⟨s, []⟩
    (done.1, done.2.system) = (reflect st d : StateM σ _).run s ∧
      (∀ p ∈ done.2.paths, p = d.sourceFile ∨
        ∃ name, Reflection.IsSimple name ∧
          p = (st.inputDirectory .object).entry (name ++ ".php") ∧
          (∀ c ∈ ['/', '.', '\\', '\x00'], c ∉ name.toList) ∧
          ∀ base, p.location base =
            (st.inputDirectory .object).location base ++ [name ++ ".php"]) ∧
      ∀ source sources sources', (∀ name, Reflection.IsSimple name → sources name = sources' name) →
        Reflection.reflect st.sourceNamespaces sources d source =
          Reflection.reflect st.sourceNamespaces sources' d source := by
  intro done
  have hasks : done = _ := reflect_asks st d s []
  rw [hasks]
  refine ⟨rfl, fun p hp => ?_, fun source sources sources' h => ?_⟩
  · rcases List.mem_cons.1 hp with rfl | hp
    · exact .inl rfl
    · right
      cases hsource : ((Host.readText d.sourceFile : StateM σ _).run s).1 with
      | error e =>
        rw [hsource] at hp
        cases hp
      | ok source =>
        rw [hsource] at hp
        obtain ⟨name, hname, rfl⟩ := List.mem_map.1 hp
        have hsimple := Reflection.isSimple_neededClasses d source name hname
        have hentry := isEntry_php (Reflection.noSlash_neededClasses d source name hname)
        exact ⟨name, hsimple, rfl, fun c hc => hsimple.not_mem hc, fun base =>
          Path.location_entry hentry.noSlash hentry.ne_empty hentry.ne_dot hentry.ne_dots⟩
  · exact Reflection.reflect_congr (fun name hname =>
      h name (Reflection.isSimple_neededClasses d source name hname)) _

/-- Settings for classes in `sdk` -/
def sdkSettings : Settings :=
  { Settings.defaults with sdkRoot := ⟨"sdk"⟩, inputs := ⟨⟨"o"⟩, ⟨"f"⟩, ⟨"v"⟩⟩ }

/-- `class Ad` with a method that fetches by the endpoint of another namespace's `Campaign` -/
def referringSource : String :=
  "<?php class Ad \x7b function getAll() \x7b " ++
    "$this->getManyByConnection(\\Other\\Campaign::class); \x7d \x7d"

/-- A machine with this class and `class Campaign` -/
def referringSdk : Machine where
  disk := ⟨[(["sdk"], .directory), (["sdk", "o"], .directory),
    (["sdk", "o", "Ad.php"], .file (.text referringSource)),
    (["sdk", "o", "Campaign.php"], .file (.text campaignSource))]⟩
  base := []
  time := ⟨2020, 1, 1, 0, 0, 0⟩

/-- The descriptor of `class Ad` -/
def referringClass : Sdk.Descriptor := ⟨.object, "Ad", "", "", ⟨"sdk/o/Ad.php"⟩, none⟩

theorem reflect_reads_referring :
    let done := (reflect sdkSettings referringClass : StateM (Recorded Machine) _).run
      ⟨referringSdk, []⟩
    done.2.paths = [⟨"sdk/o/Ad.php"⟩, ⟨"sdk/o/Campaign.php"⟩] ∧
      done.1 = ((reflect sdkSettings referringClass : StateM Machine _).run referringSdk).1 ∧
      (∃ name, Reflection.IsSimple name ∧
        (⟨"sdk/o/Campaign.php"⟩ : Path) =
          (sdkSettings.inputDirectory .object).entry (name ++ ".php")) ∧
      Reflection.reflect sdkSettings.sourceNamespaces (fun _ => none) referringClass
          referringSource =
        Reflection.reflect sdkSettings.sourceNamespaces
          (fun name => if '/' ∈ name.toList then some campaignSource else none) referringClass
          referringSource := by
  obtain ⟨hsame, hpaths, hsources⟩ := reflect_reads sdkSettings referringClass referringSdk
  intro done
  have hrecord : done.2.paths = [⟨"sdk/o/Ad.php"⟩, ⟨"sdk/o/Campaign.php"⟩] := by decide +kernel
  refine ⟨hrecord, congrArg Prod.fst hsame, ?_, hsources _ _ _ fun name hname => ?_⟩
  · rcases hpaths ⟨"sdk/o/Campaign.php"⟩ (by rw [hrecord]; simp) with hown | ⟨name, hname, hfile, -⟩
    · exact absurd hown (by decide)
    · exact ⟨name, hname, hfile⟩
  · rw [if_neg (hname.not_mem (List.mem_cons_self ..))]

end PhpSharp.Conversion
