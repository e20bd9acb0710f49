/-
  Enumerations from source to source: what is written in a PHP class of constants is what the
  generated C# class declares.

  * `enumerationSource` is the text of such a class;
  * `tokenize_enumeration`: it is read as the tokens it spells;
  * `reflect_enumeration`: its facts are its constants.
-/
import PhpSharp.Reflection.Reflect
import PhpSharp.Proofs.Php.Lexing
import PhpSharp.Proofs.Php.RoundTrip

namespace PhpSharp.Reflection

open Php

/-! ## The source -/

/-- A text in single quotes. -/
def singleQuoted (value : String) : String :=
  String.ofList (TokenKind.spell .single (.string value))

/-- The declaration of a constant, with the blank behind it. -/
def constantSource (entry : String × String) : String :=
  "const " ++ entry.1 ++ " = " ++ singleQuoted entry.2 ++ "; "

/-- The source of a class of constants. -/
def enumerationSource (nameSpace className : String) (constants : Sdk.Constants) : String :=
  "<?php namespace " ++ nameSpace ++ "; class " ++ className ++ " \x7b " ++
    String.join (constants.entries.map constantSource) ++ "\x7d"

/-! ## Its tokens -/

/-- The line feeds inside the literal of a value. -/
def valueFeeds (value : String) : Nat := lineFeeds (TokenKind.spell .single (.string value))

/-- The statement that declares a constant. -/
def constantStatement (line : Nat) (entry : String × String) : Written.ConstantStatement where
  keyword := ⟨"const", line, rfl⟩
  type := []
  type_parts := by simp
  constants := {
    first := {
      name := ⟨entry.1, line⟩
      equals := ⟨line⟩
      value := [⟨.string entry.2, line⟩]
      value_ne := by simp
      value_nested := .plain rfl rfl ⟨rfl, rfl⟩ .nil } }
  stop := ⟨line + valueFeeds entry.2⟩

/-- The members that declare constants from a line on. -/
def constantMembers (line : Nat) : List (String × String) → List Written.Member
  | [] => []
  | entry :: entries => ⟨⟨none, [], by simp⟩, .constants (constantStatement line entry)⟩ ::
      constantMembers (line + valueFeeds entry.2) entries

/-- The line behind constants that start on a line. -/
def lineBehind (line : Nat) : List (String × String) → Nat
  | [] => line
  | entry :: entries => lineBehind (line + valueFeeds entry.2) entries

/-- The class file that the source of an enumeration spells. -/
def enumerationFile (nameSpace className : String) (constants : Sdk.Constants) : Written.File where
  nameSpace? := some ⟨⟨"namespace", 1, rfl⟩, ⟨nameSpace, 1⟩, ⟨1⟩⟩
  items := [.classes {
    modifiers := []
    atMostTwo := by simp
    keyword := ⟨"class", 1, rfl⟩
    name := ⟨className, 1⟩
    parent? := none
    interfaces? := none
    opening := ⟨1⟩
    members := constantMembers 1 constants.entries
    closing := ⟨lineBehind 1 constants.entries⟩ }]

/-- Names stand on one line. -/
theorem lineFeeds_name {text : String} (h : isNameText text.toList = true) :
    lineFeeds text.toList = 0 := by
  refine List.count_eq_zero.2 fun hfeed => ?_
  have := List.all_eq_true.1 (all_of_isNameText h) _ hfeed
  exact absurd this (by decide)

theorem isNameText_of_isIdentifier {name : String} (h : Sdk.isIdentifier name = true) :
    isNameText name.toList = true := by
  match hn : name.toList with
  | [] => simp [Sdk.isIdentifier, hn] at h
  | c :: cs =>
    simp only [Sdk.isIdentifier, hn, Bool.and_eq_true] at h
    obtain ⟨hstart, hchars⟩ := h
    have hblank : Text.isBlank c = false := by
      rcases Bool.or_eq_true_iff.1 hstart with ha | hu
      · exact isBlank_of_isAlphanum (by simp [Char.isAlphanum, ha])
      · rw [eq_of_beq hu]; rfl
    have hname : isNameStart c = true := by
      rcases Bool.or_eq_true_iff.1 hstart with h | h <;> simp [isNameStart, h]
    have hrest : cs.all isNameChar = true := by
      refine List.all_eq_true.2 fun d hd => ?_
      have hd := List.all_eq_true.1 hchars d hd
      rcases Bool.or_eq_true_iff.1 hd with h | h <;> simp [isNameChar, h]
    simp [isNameText, hblank, hname, hrest]

section
variable {line : Nat} {done : List Token} {rest : List Char}

theorem tokensFrom_name {text : String} (h : isNameText text.toList = true)
    (hr : rest.head?.any isNameChar = false) :
    tokensFrom line done (text.toList ++ rest) =
      tokensFrom line (⟨.name text, line⟩ :: done) rest := by
  have hs := @tokensFrom_spell (.name text) h .single _ hr line done
  rw [TokenKind.spell, lineFeeds_name h] at hs
  exact hs

theorem tokensFrom_mark {c : Char} (h : isMark c = true)
    (hr : startsLonger c rest = false) :
    tokensFrom line done (c :: rest) = tokensFrom line (⟨.punctuation c, line⟩ :: done) rest := by
  have hs := @tokensFrom_spell (.punctuation c) h .single _ hr line done
  have hfeed : lineFeeds [c] = 0 := by
    refine List.count_eq_zero.2 fun hfeed => ?_
    rw [← List.mem_singleton.1 hfeed] at h
    exact absurd h (by decide)
  rw [TokenKind.spell, hfeed] at hs
  exact hs

theorem tokensFrom_space :
    tokensFrom line done (' ' :: rest) = tokensFrom line done rest :=
  tokensFrom_blank rfl line done rest

/-- The source of a constant is read as the statement that declares it. -/
theorem tokensFrom_constant {entry : String × String} (h : Sdk.isIdentifier entry.1 = true) :
    tokensFrom line done ((constantSource entry).toList ++ rest) =
      tokensFrom (line + valueFeeds entry.2)
        ((constantStatement line entry).tokens.reverse ++ done) rest := by
  have hconst : isNameText "const".toList = true := by decide
  have hname := isNameText_of_isIdentifier h
  have htext : (constantSource entry).toList ++ rest = "const".toList ++ ' ' :: (entry.1.toList ++
      ' ' :: '=' :: ' ' :: (TokenKind.spell .single (.string entry.2) ++ ';' :: ' ' :: rest)) := by
    simp [constantSource, singleQuoted]
  have hvalue := @tokensFrom_spell (.string entry.2) trivial .single (';' :: ' ' :: rest) trivial
  rw [htext, tokensFrom_name hconst rfl, tokensFrom_space, tokensFrom_name hname rfl,
    tokensFrom_space, tokensFrom_mark rfl rfl, tokensFrom_space, hvalue, tokensFrom_mark rfl rfl,
    tokensFrom_space]
  rfl

theorem tokensFrom_constants {entries : List (String × String)}
    (h : ∀ entry ∈ entries, Sdk.isIdentifier entry.1 = true) :
    tokensFrom line done ((String.join (entries.map constantSource)).toList ++ rest) =
      tokensFrom (lineBehind line entries)
        (((constantMembers line entries).flatMap Written.Member.tokens).reverse ++ done) rest := by
  induction entries generalizing line done with
  | nil => simp [constantMembers, lineBehind]
  | cons entry entries ih =>
    rw [List.map_cons, String.join_cons, String.toList_append, List.append_assoc,
      tokensFrom_constant (h entry (by simp)), ih fun e he => h e (by simp [he])]
    simp [constantMembers, lineBehind, Written.Member.tokens, Written.Lead.tokens,
      Written.Item.tokens]

/-- **The source of an enumeration is read as the class file that it spells.** -/
theorem tokenize_enumeration {nameSpace className : String} {constants : Sdk.Constants}
    (hn : isNameText nameSpace.toList = true) (hc : Sdk.isIdentifier className = true)
    (h : ∀ name ∈ constants.names, Sdk.isIdentifier name = true) :
    tokenize (enumerationSource nameSpace className constants) =
      .ok (enumerationFile nameSpace className constants).tokens := by
  have hnamespace : isNameText "namespace".toList = true := by decide
  have hclass : isNameText "class".toList = true := by decide
  have hname := isNameText_of_isIdentifier hc
  have hentries : ∀ entry ∈ constants.entries, Sdk.isIdentifier entry.1 = true := fun entry he =>
    h entry.1 (List.mem_map_of_mem he)
  have hsource : ∀ body : String, "<?php namespace " ++ nameSpace ++ "; class " ++ className ++
      " \x7b " ++ body ++ "\x7d" = "<?php " ++ String.ofList ("namespace".toList ++ ' ' ::
        (nameSpace.toList ++ ';' :: ' ' :: ("class".toList ++ ' ' :: (className.toList ++ ' ' ::
          '\x7b' :: ' ' :: (body.toList ++ ['\x7d']))))) := fun body => by
    refine String.toList_inj.1 ?_
    simp
  refine (congrArg tokenize (hsource _)).trans ?_
  rw [tokenize_openTag, tokensFrom_name hnamespace rfl, tokensFrom_space,
    tokensFrom_name hn rfl, tokensFrom_mark rfl rfl, tokensFrom_space, tokensFrom_name hclass rfl,
    tokensFrom_space, tokensFrom_name hname rfl, tokensFrom_space, tokensFrom_mark rfl rfl,
    tokensFrom_space, tokensFrom_constants hentries, tokensFrom_mark rfl rfl, tokensFrom_nil]
  simp [enumerationFile, Written.File.tokens, Written.NamespaceStatement.tokens,
    Written.TopLevel.tokens, Written.Class.tokens, Written.Class.head, Written.Keyword.token,
    Written.Name.token, Written.Mark.token]

end

/-! ## Its facts -/

theorem evaluate_string (scope : Scope) (value : String) (line : Nat) :
    scope.evaluate [⟨.string value, line⟩] = .ok value := by
  simp [Scope.evaluate, Scope.evaluateFrom, Token.isPunctuation, Scope.readTerm]

/-- Constants with names of their own are all declared, in order. -/
theorem declareAll_constants (className : String) (line : Nat) {entries : List (String × String)}
    {known all : Sdk.Constants} (h : all.entries = known.entries ++ entries) :
    declareAll className known ((constantMembers line entries).flatMap Written.Member.constants) =
      .ok all := by
  induction entries generalizing known line with
  | nil =>
    obtain rfl : known = all := Sdk.Constants.ext (by simpa using h.symm)
    rfl
  | cons entry entries ih =>
    have hfresh : entry.1 ∉ known.names := by
      have hnodup := all.nodup
      rw [h, List.map_append, List.nodup_append] at hnodup
      exact fun hm => hnodup.2.2 _ hm _ (by simp) rfl
    have hinsert : ∃ next, known.insert? entry.1 entry.2 = some next :=
      ⟨_, dif_neg hfresh⟩
    obtain ⟨next, hinsert⟩ := hinsert
    have hnext := Sdk.Constants.entries_of_insert? hinsert
    have hmembers : (constantMembers line (entry :: entries)).flatMap Written.Member.constants =
        ⟨entry.1, [⟨.string entry.2, line⟩], line⟩ ::
          (constantMembers (line + valueFeeds entry.2) entries).flatMap
            Written.Member.constants := rfl
    rw [hmembers, declareAll]
    simp only [evaluate_string, hinsert]
    exact ih _ (by simp [h, hnext])

/-- The facts of an enumeration are the constants that its class declares. -/
theorem reflect_constants (expected : Sdk.PerKind String) (sources : String → Option String)
    {d : Sdk.Descriptor} (hk : d.kind.isEnumeration = true) {source : String} {file : ClassFile}
    (hfile : ClassFile.ofSource source = .ok file) {c : ClassDecl}
    (hclass : file.class? d.shortName = some c) {constants : Sdk.Constants}
    (hall : enumerationConstants c = .ok constants) :
    (reflect expected sources d source).1 = .ok (.enumeration constants) := by
  have hfacts : classFacts sources c d.kind = (.ok (.enumeration constants), []) := by
    cases hkind : d.kind with
    | object => simp [hkind, Sdk.Kind.isEnumeration] at hk
    | fields | values => simp [classFacts, hall]
  rw [reflect, hfile]
  simp only [hclass]
  rw [hfacts]

/-- **The facts of an enumeration are its constants**, each with the value that its literal was
    written for. -/
theorem reflect_enumeration (expected : Sdk.PerKind String) (sources : String → Option String)
    {d : Sdk.Descriptor} (hk : d.kind.isEnumeration = true) {nameSpace : String}
    (hn : isNameText nameSpace.toList = true) (hc : Sdk.isClassName d.shortName = true)
    {constants : Sdk.Constants} (h : ∀ name ∈ constants.names, Sdk.isIdentifier name = true) :
    (reflect expected sources d (enumerationSource nameSpace d.shortName constants)).1 =
      .ok (.enumeration constants) := by
  have hidentifier : Sdk.isIdentifier d.shortName = true := (Bool.and_eq_true_iff.1 hc).1
  have hfile : ClassFile.ofSource (enumerationSource nameSpace d.shortName constants) =
      .ok (enumerationFile nameSpace d.shortName constants).classFile := by
    rw [ClassFile.ofSource, tokenize_enumeration hn hidentifier h]
    exact Written.ofTokens_tokens _
  have hclass : (enumerationFile nameSpace d.shortName constants).classFile.class? d.shortName =
      some {
        name := d.shortName, isAbstract := false, parent? := none, interfaces := []
        constants := (constantMembers 1 constants.entries).flatMap Written.Member.constants
        methods := (constantMembers 1 constants.entries).filterMap Written.Member.method?
        line := 1 } := by
    simp [enumerationFile, Written.File.classFile, Written.TopLevel.class?, Written.Class.decl,
      ClassFile.class?]
  exact reflect_constants expected sources hk hfile hclass (declareAll_constants _ 1 rfl)

end PhpSharp.Reflection
