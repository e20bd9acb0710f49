/-
  How converting a class can end, by what its steps answer.

  * `Plan.Ends p d F W status`: the status is one to which facts that are as `F` says, and a file
    written as `W` says, can lead;
  * `keeps_convert`, `keeps_process`: to others it does not come, and what each step keeps is kept.
-/
import PhpSharp.Conversion.Run
import PhpSharp.Proofs.Files.Keeps

namespace PhpSharp.Conversion

open Files (Host Keeps)

/-- **How converting a class can end,** if `F` is known of the answer about its facts and `W` of the
    answer of writing its file. -/
inductive Plan.Ends (p : Plan) (d : Sdk.Descriptor) (F : Except Error Sdk.Facts → Prop)
    (W : Except Error Path → Prop) : Status → Prop
  /-- The facts cannot be read. -/
  | unread {e} (hf : F (.error e)) : Ends p d F W (.failed e)
  /-- Nothing can be generated from the facts. -/
  | ungenerated {facts fault} (hf : F (.ok facts))
      (hr : CSharp.render p.settings.profile { d with facts? := some facts } p.date =
        .error fault) : Ends p d F W (.failed (.template d.shortName fault))
  /-- Nothing is to be written. -/
  | planned {facts text} (hf : F (.ok facts))
      (hr : CSharp.render p.settings.profile { d with facts? := some facts } p.date = .ok text)
      (hdry : p.isDry = true) :
      Ends p d F W (.planned ((Output.ofSettings p.settings).path d.kind d.shortName))
  /-- The file cannot be written. -/
  | unwritten {facts text e} (hf : F (.ok facts))
      (hr : CSharp.render p.settings.profile { d with facts? := some facts } p.date = .ok text)
      (hwet : p.isDry = false) (hw : W (.error e)) : Ends p d F W (.failed e)
  /-- The file is written. -/
  | written {facts text path} (hf : F (.ok facts))
      (hr : CSharp.render p.settings.profile { d with facts? := some facts } p.date = .ok text)
      (hwet : p.isDry = false) (hw : W (.ok path)) : Ends p d F W (.written path)

section
variable {p : Plan} {d : Sdk.Descriptor} {F : Except Error Sdk.Facts → Prop}
  {W : Except Error Path → Prop}

theorem Plan.Ends.of_error {status : Status} {e : Error} (h : p.Ends d (· = .error e) W status) :
    status = .failed e := by
  cases h with
  | unread hf => rw [Except.error.inj hf]
  | _ hf => cases hf

theorem Plan.Ends.of_fault {status : Status} {facts : Sdk.Facts} {fault : CSharp.Fault}
    (h : p.Ends d (· = .ok facts) W status)
    (hr : CSharp.render p.settings.profile { d with facts? := some facts } p.date = .error fault) :
    status = .failed (.template d.shortName fault) := by
  cases h with
  | unread hf => cases hf
  | ungenerated hf hr' =>
    obtain rfl := Except.ok.inj hf
    rw [Except.error.inj (hr'.symm.trans hr)]
  | _ hf hr' =>
    obtain rfl := Except.ok.inj hf
    cases hr'.symm.trans hr

theorem Plan.Ends.of_text {status : Status} {facts : Sdk.Facts} {text : String}
    (h : p.Ends d (· = .ok facts) W status)
    (hr : CSharp.render p.settings.profile { d with facts? := some facts } p.date = .ok text) :
    (p.isDry = true ∧ status = .planned ((Output.ofSettings p.settings).path d.kind d.shortName)) ∨
      p.isDry = false ∧ ((∃ path, W (.ok path) ∧ status = .written path) ∨
        ∃ e, W (.error e) ∧ status = .failed e) := by
  cases h with
  | unread hf => cases hf
  | ungenerated hf hr' =>
    obtain rfl := Except.ok.inj hf
    cases hr'.symm.trans hr
  | planned _ _ hdry => exact .inl ⟨hdry, rfl⟩
  | unwritten _ _ hwet hw => exact .inr ⟨hwet, .inr ⟨_, hw, rfl⟩⟩
  | written _ _ hwet hw => exact .inr ⟨hwet, .inl ⟨_, hw, rfl⟩⟩

variable {σ : Type} [Host (StateM σ)] {I : σ → Prop}

/-- The log and the clock have nothing to do with it. -/
structure Silent (I : σ → Prop) : Prop where
  log : ∀ e, Keeps I (Host.log e : StateM σ Unit) fun _ => True
  clock : Keeps I (Host.clock : StateM σ Nat) fun _ => True

theorem silent_any : Silent fun _ : σ => True := ⟨fun _ => .any, .any⟩

/-- **Converting a class** ends in one of these ways. -/
theorem keeps_convert (hI : Silent I) (hf : Keeps I (reflect p.settings d) F)
    (hw : p.isDry = false → ∀ text, Keeps I
      (write (Output.ofSettings p.settings) d.kind d.shortName text) W) :
    Keeps I (convert p d : StateM σ _) fun answer => p.Ends d F W answer.1 := by
  refine hf.bind fun facts hfacts => ?_
  cases facts with
  | error e => exact .pure (.unread hfacts)
  | ok facts =>
    refine hI.clock.bind fun started _ => ?_
    dsimp only
    cases hrender : CSharp.render p.settings.profile { d with facts? := some facts } p.date with
    | error fault => exact .pure (.ungenerated hfacts hrender)
    | ok text =>
      refine hI.clock.bind fun ended _ => ?_
      cases hdry : p.isDry with
      | true => exact .pure (.planned hfacts hrender hdry)
      | false =>
        refine (hw hdry text).bind fun written hwritten => ?_
        cases written with
        | error e => exact .pure (.unwritten hfacts hrender hdry hwritten)
        | ok path => exact .pure (.written hfacts hrender hdry hwritten)

/-- **Processing a class** ends in one of these ways. -/
theorem keeps_process (hI : Silent I) (hf : Keeps I (reflect p.settings d) F)
    (hw : p.isDry = false → ∀ text, Keeps I
      (write (Output.ofSettings p.settings) d.kind d.shortName text) W) (i : Nat) :
    Keeps I (process p i d : StateM σ _) fun o => p.Ends d F W o.status := by
  refine hI.clock.bind fun started _ => (keeps_convert hI hf hw).bind fun answer hanswer => ?_
  obtain ⟨status, took?⟩ := answer
  cases status with
  | failed e => exact (hI.log _).bind fun _ _ => hI.clock.bind fun _ _ => .pure hanswer
  | _ => exact hI.clock.bind fun _ _ => .pure hanswer

/-- What comes of writing a file: an error about the directory or the file, or the file. -/
theorem keeps_write {o : Output} {k : Sdk.Kind} {name text : String} {A : Except Error Path → Prop}
    (hd : Keeps I (Files.createDirectories (o.directories.get k)) fun _ => True)
    (hr : Keeps I (Files.replaceFile (o.directories.get k) (o.path k name) text) fun _ => True)
    (hdirectory : ∀ cause, A (.error (.write (o.directories.get k) cause)))
    (hfile : ∀ cause, A (.error (.write (o.path k name) cause))) (hok : A (.ok (o.path k name))) :
    Keeps I (write o k name text : StateM σ _) A := by
  refine hd.bind fun made _ => ?_
  cases made with
  | error e => exact .pure (hdirectory e)
  | ok u =>
    refine hr.bind fun replaced _ => ?_
    cases replaced with
    | error e => exact .pure (hfile e)
    | ok u => exact .pure hok

end

end PhpSharp.Conversion
