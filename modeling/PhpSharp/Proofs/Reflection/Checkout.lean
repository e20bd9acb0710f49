/-
  A file in two checkouts: one with line feeds alone, one with a carriage return before each.

  * `checkout` is a class with one constant, the value of which is a heredoc;
  * `reflect_checkout`: its constant has the text that the heredoc is read as;
  * `heredoc_returns`: with carriage returns, that text ends in one, which belongs to the line
    break before the closing label. So the constant has not the same value in both checkouts.
-/
import PhpSharp.Proofs.Php.HeredocLines
import PhpSharp.Proofs.Reflection.Enumeration

namespace PhpSharp.Reflection

open Php

/-! ## The source -/

/-- A class with one constant, with that end behind every line. -/
def checkout (e : LineEnd) (className name : String) (h : Written.PlainHeredoc) : String :=
  String.ofList ("<?php".toList ++ (e.text ++ ("class".toList ++ ' ' :: (className.toList ++
    ' ' :: '{' :: (e.text ++ ("const".toList ++ ' ' :: (name.toList ++ ' ' :: '=' :: ' ' ::
      (h.text e ++ ';' :: (e.text ++ '}' :: e.text)))))))))

theorem no_modifiers : ([] : List Written.ClassModifier).length ≤ 2 := Nat.zero_le 2

theorem no_visibility :
    (([] : List Written.ModifierWord).filterMap Written.ModifierWord.visibility?).length ≤ 1 :=
  Nat.zero_le 1

/-- The class file that it spells. -/
def checkoutFile (e : LineEnd) (className name : String) (h : Written.PlainHeredoc) :
    Written.File where
  nameSpace? := none
  items := [.classes {
    modifiers := []
    atMostTwo := no_modifiers
    keyword := .plain "class" 2
    name := ⟨className, 2⟩
    parent? := none
    interfaces? := none
    opening := ⟨2⟩
    members := [⟨⟨none, [], no_visibility⟩, .constants {
      constantStatement 3 (name, String.ofList (h.content e)) with
      stop := ⟨3 + (h.lines.length + 1)⟩ }⟩]
    closing := ⟨3 + (h.lines.length + 1) + 1⟩ }]

section
variable {line : Nat} {done : List Token} {rest : List Char}

theorem tokensFrom_lineEnd (e : LineEnd) :
    tokensFrom line done (e.text ++ rest) = tokensFrom (line + 1) done rest := by
  cases e with
  | feed => exact tokensFrom_blank rfl line done rest
  | returnFeed =>
    exact (tokensFrom_blank (c := '\r') rfl line done _).trans (tokensFrom_blank rfl line done rest)

theorem tokensFrom_heredoc (h : Written.PlainHeredoc) (e : LineEnd)
    (hr : rest.head?.any isLabelChar = false) :
    tokensFrom line done (h.text e ++ rest) =
      tokensFrom (line + (h.lines.length + 1))
        (⟨.string (String.ofList (h.content e)), line⟩ :: done) rest := by
  rw [tokensFrom_heads (h.heads e hr), h.lineFeeds_text]
  rfl

end

/-- The checkout is read as the class file that it spells. -/
theorem ofSource_checkout (e : LineEnd) {className name : String}
    (hc : Sdk.isIdentifier className = true) (hn : Sdk.isIdentifier name = true)
    (h : Written.PlainHeredoc) :
    ClassFile.ofSource (checkout e className name h) =
      .ok (checkoutFile e className name h).classFile := by
  have hclass : isNameText "class".toList = true := by decide
  have hconst : isNameText "const".toList = true := by decide
  have hend : ∀ line done, tokensFrom line done e.text = .ok done.reverse := by
    intro line done
    rw [← List.append_nil e.text, tokensFrom_lineEnd, tokensFrom_nil]
  have htokens : tokenize (checkout e className name h) =
      .ok (checkoutFile e className name h).tokens := by
    unfold checkout
    rw [tokenize_php, tokensFrom_lineEnd, tokensFrom_name hclass rfl, tokensFrom_space,
      tokensFrom_name (isNameText_of_isIdentifier hc) rfl, tokensFrom_space,
      tokensFrom_mark rfl rfl, tokensFrom_lineEnd, tokensFrom_name hconst rfl,
      tokensFrom_space, tokensFrom_name (isNameText_of_isIdentifier hn) rfl, tokensFrom_space,
      tokensFrom_mark rfl rfl, tokensFrom_space, tokensFrom_heredoc h e rfl,
      tokensFrom_mark rfl rfl, tokensFrom_lineEnd, tokensFrom_mark rfl rfl, hend]
    simp [checkoutFile, Written.File.tokens, Written.TopLevel.tokens, Written.Class.tokens,
      Written.Class.head, Written.Keyword.plain, Written.Keyword.token, Written.Name.token,
      Written.Mark.token]
    rfl
  rw [ClassFile.ofSource, htokens]
  exact Written.ofTokens_tokens _

/-! ## Its facts -/

/-- One constant. -/
def single (name value : String) : Sdk.Constants where
  entries := [(name, value)]

/-- The constant of a checkout has the text that its heredoc is read as. -/
theorem reflect_checkout (expected : Sdk.PerKind String) (sources : String → Option String)
    {d : Sdk.Descriptor} (hk : d.kind.isEnumeration = true)
    (hc : Sdk.isClassName d.shortName = true)
    {name : String} (hn : Sdk.isIdentifier name = true) (h : Written.PlainHeredoc) (e : LineEnd) :
    (reflect expected sources d (checkout e d.shortName name h)).1 =
      .ok (.enumeration (single name (String.ofList (h.content e)))) := by
  have hfile := ofSource_checkout e (Bool.and_eq_true_iff.1 hc).1 hn h
  have hclass : (checkoutFile e d.shortName name h).classFile.class? d.shortName = some {
      name := d.shortName, isAbstract := false, parent? := none, interfaces := []
      constants := [⟨name, [⟨.string (String.ofList (h.content e)), 3⟩], 3⟩]
      methods := [], line := 2 } := by
    simp [checkoutFile, Written.File.classFile, Written.TopLevel.class?, Written.Class.decl,
      Written.Keyword.plain, ClassFile.class?]
    exact ⟨rfl, rfl⟩
  refine reflect_constants expected sources hk hfile hclass ?_
  rw [enumerationConstants, declareAll]
  simp only [evaluate_string]
  rfl

/-- **With carriage returns, a heredoc ends in one.**

    * The value of a heredoc in a file with `\r\n` at the end of every line is its lines joined by
      `\r\n`, and one `\r` more unless there are no lines: of the line break before the closing
      label, the line feed alone is taken off. The source goes on behind the label.
    * So it is the lines joined by `\r\n` exactly if there are none.
    * A constant whose heredoc has one line has that line for its value in a file with line feeds
      alone, and the line with a carriage return behind it in a file with both. -/
theorem heredoc_returns (h : Written.PlainHeredoc) :
    (∀ rest : List Char, rest.head?.any isLabelChar = false →
      tokenize ("<?php " ++ String.ofList (h.text .returnFeed ++ rest)) =
        behind [⟨.string (String.ofList (['\r', '\n'].intercalate h.lines ++
            if h.lines = [] then [] else ['\r'])), 1⟩] (h.lines.length + 1)
          (tokenize ("<?php " ++ String.ofList rest))) ∧
    (h.content .returnFeed = ['\r', '\n'].intercalate h.lines ↔ h.lines = []) ∧
    ∀ (expected : Sdk.PerKind String) (sources : String → Option String) (d : Sdk.Descriptor)
      (name : String) (line : List Char),
      d.kind.isEnumeration = true → Sdk.isClassName d.shortName = true →
      Sdk.isIdentifier name = true → h.lines = [line] →
      (reflect expected sources d (checkout .feed d.shortName name h)).1 =
          .ok (.enumeration (single name (String.ofList line))) ∧
        (reflect expected sources d (checkout .returnFeed d.shortName name h)).1 =
          .ok (.enumeration (single name (String.ofList (line ++ ['\r'])))) := by
  refine ⟨fun rest hrest => ?_, ?_, fun expected sources d name line hk hc hn hline => ?_⟩
  · have hread := tokenize_heads (h.heads .returnFeed hrest)
    rw [h.lineFeeds_text] at hread
    exact hread
  · by_cases hnil : h.lines = [] <;>
      simp [Written.PlainHeredoc.content, LineEnd.text, LineEnd.returns, hnil]
  · have hfeed : h.content .feed = line := by
      simp [Written.PlainHeredoc.content, hline, LineEnd.returns]
    have hreturn : h.content .returnFeed = line ++ ['\r'] := by
      simp [Written.PlainHeredoc.content, hline, LineEnd.returns]
    have hreflect := reflect_checkout expected sources hk hc hn h
    rw [← hreturn, ← hfeed]
    exact ⟨hreflect .feed, hreflect .returnFeed⟩

theorem no_indent : ([] : List Char).all (fun c => c == ' ' || c == '\t') = true := rfl

/-- One line in a heredoc without quotes. -/
def nameHeredoc : Written.PlainHeredoc where
  quote? := none
  label := "X".toList
  indent := []
  lines := ["name".toList]
  isLabel := ⟨by decide, by decide⟩
  indent_all := no_indent
  lines_feed := by decide
  lines_open := by decide
  plain := .inr (by decide)

/-- A class of constants before its source is read. -/
def namingDescriptor : Sdk.Descriptor where
  kind := .fields
  shortName := "AdFields"
  nameSpace := "Sdk.Fields"
  qualifiedName := "\\Sdk\\Fields\\AdFields"
  sourceFile := ⟨"AdFields.php"⟩

theorem heredoc_returns_name :
    tokenize "<?php <<<X\r\nname\r\nX;" =
        .ok [⟨.string "name\r", 1⟩, ⟨.punctuation ';', 3⟩] ∧
      (reflect ⟨"", "", ""⟩ (fun _ => none) namingDescriptor
          "<?php\nclass AdFields \x7b\nconst NAME = <<<X\nname\nX;\n\x7d\n").1 =
        .ok (.enumeration (single "NAME" "name")) ∧
      (reflect ⟨"", "", ""⟩ (fun _ => none) namingDescriptor
          "<?php\r\nclass AdFields \x7b\r\nconst NAME = <<<X\r\nname\r\nX;\r\n\x7d\r\n").1 =
        .ok (.enumeration (single "NAME" "name\r")) := by
  obtain ⟨hvalue, -, hconstant⟩ := heredoc_returns nameHeredoc
  obtain ⟨hfeed, hreturn⟩ := hconstant ⟨"", "", ""⟩ (fun _ => none) namingDescriptor "NAME"
    "name".toList rfl (by decide) (by decide) rfl
  have hsource : "<?php <<<X\r\nname\r\nX;" =
      "<?php " ++ String.ofList (nameHeredoc.text .returnFeed ++ [';']) := by decide +kernel
  have hrest : tokenize ("<?php " ++ String.ofList [';']) = .ok [⟨.punctuation ';', 1⟩] := by
    decide +kernel
  refine ⟨?_, ?_, ?_⟩
  · rw [hsource, hvalue [';'] rfl, hrest]
    decide +kernel
  · have hcheckout : checkout .feed "AdFields" "NAME" nameHeredoc =
        "<?php\nclass AdFields \x7b\nconst NAME = <<<X\nname\nX;\n\x7d\n" := by decide +kernel
    exact hcheckout ▸ hfeed
  · have hcheckout : checkout .returnFeed "AdFields" "NAME" nameHeredoc =
        "<?php\r\nclass AdFields \x7b\r\nconst NAME = <<<X\r\nname\r\nX;\r\n\x7d\r\n" := by
      decide +kernel
    exact hcheckout ▸ hreturn

end PhpSharp.Reflection
