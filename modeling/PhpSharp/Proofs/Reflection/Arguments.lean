/-
  The arguments of the calls in the bodies of a file.

  * `Nested.exists_arguments`: every well-nested run is a list of arguments;
  * `Search.eq_some_iff`: a search finds the first head and nothing else;
  * `arguments_split`: in a body, the parenthesis of the call that is found is closed, and the
    arguments are the runs between the commas in front of its closing one.
-/
import PhpSharp.Proofs.Php.Provenance
import PhpSharp.Proofs.Reflection.Calls

namespace PhpSharp.Reflection

open Php (Token Nested WellNested ClassFile)

/-! ## Lists of arguments -/

section
variable {arguments : List (List Token)} {run ts : List Token}

/-- A run without commas in front belongs to the first argument. -/
theorem ArgumentList.prepend (hne : run ≠ []) (hr : Nested NoComma run)
    (h : ArgumentList arguments ts) : ∃ arguments', ArgumentList arguments' (run ++ ts) := by
  cases h with
  | none => exact ⟨[run], by simpa using .last hne hr⟩
  | last _ hn => exact ⟨[run ++ ts], .last (by simp [hne]) (hr.append hn)⟩
  | cons hn hrest =>
    rw [← List.append_assoc]
    exact ⟨_, .cons (hr.append hn) hrest⟩

/-- **Every well-nested run is a list of arguments.** -/
theorem exists_arguments {p : Token → Prop} (h : Nested p ts) :
    ∃ arguments, ArgumentList arguments ts := by
  induction h with
  | nil => exact ⟨[], .none⟩
  | @plain p t ts ho hc _ _ ih =>
    obtain ⟨arguments, hrest⟩ := ih
    by_cases hcomma : NoComma t
    · exact hrest.prepend (List.cons_ne_nil t []) (.plain ho hc hcomma .nil)
    · obtain ⟨kind, line⟩ := t
      obtain rfl : kind = .punctuation ',' := by simpa [NoComma, Token.isPunctuation] using hcomma
      exact ⟨[] :: arguments, .cons .nil hrest⟩
  | @block p o inner c ts b ho hc hi _ _ ih =>
    obtain ⟨arguments, hrest⟩ := ih
    have hblock : Nested NoComma (o :: inner ++ c :: []) := .block ho hc hi .nil
    have hall := hrest.prepend (by simp) hblock
    rwa [List.append_assoc, List.singleton_append] at hall

/-- Arguments, each with the line of the comma behind it. The last comma may be left out. -/
def listed (trailing : Bool) : List (List Token × Nat) → List Token
  | [] => []
  | [(argument, line)] => argument ++ if trailing then [⟨.punctuation ',', line⟩] else []
  | (argument, line) :: arguments =>
    argument ++ ⟨.punctuation ',', line⟩ :: listed trailing arguments

theorem argumentList_listed (trailing : Bool) {arguments : List (List Token × Nat)}
    (h : ∀ a ∈ arguments, a.1 ≠ [] ∧ Nested NoComma a.1) :
    ArgumentList (arguments.map Prod.fst) (listed trailing arguments) := by
  induction arguments with
  | nil => exact .none
  | cons a arguments ih =>
    obtain ⟨⟨hne, hn⟩, hrest⟩ := List.forall_mem_cons.1 h
    cases arguments with
    | nil =>
      cases trailing with
      | true => exact .cons hn .none
      | false =>
        show ArgumentList [a.1] (a.1 ++ [])
        rw [List.append_nil]
        exact .last hne hn
    | cons b arguments => exact .cons hn (ih hrest)

end

/-! ## Calls in bodies -/

section
variable {α κ : Type} {Head : List Token → κ → Prop} {found : κ → List Token → α}
  {find at? : List Token → Option α} {ts : List Token} {a : α}

/-- **A search finds the first head.** -/
theorem Search.eq_some_iff (s : Search Head found find at?) : find ts = some a ↔
    ∃ front head k rest, ts = front ++ (head ++ rest) ∧ ¬Has Head front ∧ Head head k ∧
      a = found k rest := by
  constructor
  · intro h
    induction ts with
    | nil => cases s.nil.symm.trans h
    | cons t ts ih =>
      rw [s.cons] at h
      cases hat : at? (t :: ts) with
      | some a' =>
        rw [hat, Option.some_or] at h
        obtain ⟨head, k, rest, hh, he, ha⟩ := (s.at_iff _ _).1 hat
        have hempty : ¬Has Head [] := s.eq_none_iff.1 s.nil
        exact ⟨[], head, k, rest, he, hempty, hh, (Option.some.inj h).symm.trans ha⟩
      | none =>
        rw [hat, Option.none_or] at h
        obtain ⟨front, head, k, rest, rfl, hfront, hh, ha⟩ := ih h
        refine ⟨t :: front, head, k, rest, rfl, ?_, hh, ha⟩
        rintro ⟨head', k', hh', hinfix⟩
        rcases List.infix_cons_iff.1 hinfix with ⟨more, he⟩ | hinfix
        · -- a head at the token itself would have been found there
          have hat' := (s.at_iff (t :: (front ++ (head ++ rest))) _).2
            ⟨head', k', more ++ (head ++ rest), hh',
              by rw [← List.append_assoc head', he]; rfl, rfl⟩
          cases hat.symm.trans hat'
        · exact hfront ⟨head', k', hh', hinfix⟩
  · rintro ⟨front, head, k, rest, rfl, hfront, hh, rfl⟩
    exact s.append hfront hh rest

/-- The first head among the tokens starts a call: its parenthesis is closed, and between the
    parentheses stand the arguments. -/
def FirstCall (Head : List Token → κ → Prop) (ts : List Token) (k : κ)
    (arguments : List (List Token)) : Prop :=
  ∃ front head inside closing after, ts = front ++ (head ++ (inside ++ closing :: after)) ∧
    ¬Has Head front ∧ Head head k ∧ closing.isPunctuation ')' = true ∧ WellNested inside ∧
    ArgumentList arguments inside

theorem closes?_of_isPunctuation {t : Token} (h : t.isPunctuation ')' = true) :
    t.closes? = some .parenthesis := by
  rw [Token.closes?, Token.punctuation?, eq_of_beq h]
  rfl

/-- **In a well-nested run a search for calls finds the first one,** with its arguments. -/
theorem Search.eq_some_iff_firstCall (result : κ → List (List Token) → α)
    (s : Search Head (fun k rest => result k (splitArguments rest)) find at?)
    (hopen : ∀ head k, Head head k → ∃ front line, head = front ++ [⟨.punctuation '(', line⟩])
    (h : WellNested ts) :
    find ts = some a ↔ ∃ k arguments, FirstCall Head ts k arguments ∧ a = result k arguments := by
  rw [s.eq_some_iff]
  constructor
  · rintro ⟨front, head, k, rest, rfl, hfront, hh, rfl⟩
    obtain ⟨before, line, rfl⟩ := hopen head k hh
    have hnested : WellNested ((front ++ before) ++ ⟨.punctuation '(', line⟩ :: rest) := by
      simpa using h
    obtain ⟨inside, closing, after, rfl, hc, hinside⟩ := hnested.exists_close rfl
    obtain ⟨arguments, hlist⟩ := exists_arguments hinside
    have hclosing : closing.isPunctuation ')' = true := by
      rw [Token.isPunctuation, Token.kind_of_closes? hc]
      rfl
    exact ⟨k, arguments, ⟨front, _, inside, closing, after, rfl, hfront, hh, hclosing, hinside,
      hlist⟩, by rw [splitArguments_list hlist hc]⟩
  · rintro ⟨k, arguments, ⟨front, head, inside, closing, after, rfl, hfront, hh, hc, -, hlist⟩, rfl⟩
    refine ⟨front, head, k, _, rfl, hfront, hh, ?_⟩
    rw [splitArguments_list hlist (closes?_of_isPunctuation hc)]

end

theorem connectionCall?_eq_some_iff {body : List Token} (h : WellNested body)
    {kind : Sdk.ConnectionKind} {arguments : List (List Token)} :
    connectionCall? body = some (kind, arguments) ↔
      FirstCall ConnectionHead body kind arguments := by
  rw [connectionCall?_search.eq_some_iff_firstCall Prod.mk ?_ h]
  · constructor
    · rintro ⟨k, as, hcall, he⟩
      cases he
      exact hcall
    · exact fun hcall => ⟨kind, arguments, hcall, rfl⟩
  · rintro _ _ ⟨-⟩
    exact ⟨[_, _, _], _, rfl⟩

theorem request?_eq_some_iff {body : List Token} (h : WellNested body)
    {arguments : List (List Token)} :
    request? body = some arguments ↔ FirstCall RequestHead body () arguments := by
  rw [request?_search.eq_some_iff_firstCall (fun _ arguments => arguments) ?_ h]
  · constructor
    · rintro ⟨k, as, hcall, rfl⟩
      exact hcall
    · exact fun hcall => ⟨(), arguments, hcall, rfl⟩
  · rintro _ _ ⟨-, -, -⟩
    exact ⟨[_, _], _, rfl⟩

/-- **Calls are split into their arguments.** In a method body of a file, a connection call and a
    request are found exactly where the first head of one stands; its parenthesis is closed inside
    the body, and the arguments are the runs between the commas outside of all brackets, of which
    only an empty one at the end is dropped. Any list of arguments that are not empty is read back
    from its tokens, with or without a comma at its end and whatever follows its parenthesis. -/
theorem arguments_split :
    (∀ ts file, ClassFile.ofTokens ts = .ok file → ∀ c ∈ file.classes, ∀ m ∈ c.methods,
      ∀ body ∈ m.body?,
        (∀ kind arguments, connectionCall? body = some (kind, arguments) ↔
          FirstCall ConnectionHead body kind arguments) ∧
        ∀ arguments, request? body = some arguments ↔ FirstCall RequestHead body () arguments) ∧
    ∀ (arguments : List (List Token × Nat)) (trailing : Bool) (closing : Token)
      (after : List Token), (∀ a ∈ arguments, a.1 ≠ [] ∧ Nested NoComma a.1) →
      closing.isPunctuation ')' = true →
        splitArguments (listed trailing arguments ++ closing :: after) =
          arguments.map Prod.fst := by
  constructor
  · intro ts file h c hc m hm body hbody
    obtain ⟨-, -, -, -, -, -, -, hnested⟩ := (Php.ofTokens_method h hc hm).2 body hbody
    exact ⟨fun kind arguments => connectionCall?_eq_some_iff hnested,
      fun arguments => request?_eq_some_iff hnested⟩
  · intro arguments trailing closing after h hc
    exact splitArguments_list (argumentList_listed trailing h) (closes?_of_isPunctuation hc) after

/-- `return $this->getManyByConnection(User::class, f($a, [1, 2]));` -/
def fetchingBody : List Token :=
  [.name "return", .variable "this", .arrow, .name "getManyByConnection", .punctuation '(',
    .name "User", .doubleColon, .name "class", .punctuation ',', .name "f", .punctuation '(',
    .variable "a", .punctuation ',', .punctuation '[', .number "1", .punctuation ',', .number "2",
    .punctuation ']', .punctuation ')', .punctuation ')', .punctuation ';'].map (⟨·, 2⟩)

def fetchingMethod : Php.MethodDecl where
  name := "getUsers"
  body? := some fetchingBody
  doc? := none
  line := 1
  visibility := .publicMember
  isStatic := false

def fetchingClass : Php.ClassDecl := ⟨"Ad", false, none, [], [], [fetchingMethod], 1⟩

/-- `class Ad { function getUsers() {` and the body, on a line of its own. -/
def fetchingTokens : List Token :=
  [.name "class", .name "Ad", .punctuation '{', .name "function", .name "getUsers",
    .punctuation '(', .punctuation ')', .punctuation '{'].map (⟨·, 1⟩) ++ fetchingBody ++
    [.punctuation '}', .punctuation '}'].map (⟨·, 3⟩)

theorem arguments_split_users :
    ClassFile.ofTokens fetchingTokens = .ok ⟨none, [fetchingClass]⟩ ∧
      FirstCall ConnectionHead fetchingBody .synchronous
        [(fetchingBody.drop 5).take 3, (fetchingBody.drop 9).take 10] ∧
      splitArguments (listed true [((fetchingBody.drop 5).take 3, 4)] ++
        ⟨.punctuation ')', 5⟩ :: fetchingBody) = [(fetchingBody.drop 5).take 3] := by
  have hread : ClassFile.ofTokens fetchingTokens = .ok ⟨none, [fetchingClass]⟩ := by
    decide +kernel
  have hargument : ∀ a ∈ [((fetchingBody.drop 5).take 3, 4)], a.1 ≠ [] ∧ Nested NoComma a.1 :=
    List.forall_mem_singleton.2 ⟨by decide,
      .plain rfl rfl rfl (.plain rfl rfl rfl (.plain rfl rfl rfl .nil))⟩
  obtain ⟨hcalls, hlisted⟩ := arguments_split
  have hcall := (hcalls _ _ hread fetchingClass List.mem_cons_self fetchingMethod
    List.mem_cons_self fetchingBody rfl).1
  exact ⟨hread, (hcall _ _).1 (by decide +kernel), hlisted _ true _ fetchingBody hargument rfl⟩

end PhpSharp.Reflection
