/-
  Class files: what a PHP source declares, as far as its classes go. Values of constants
  and bodies of methods stay runs of tokens.
-/
import PhpSharp.Php.Token

namespace PhpSharp.Php

/-- Who may use a member. -/
inductive Visibility
  /-- `public`, or no word at all -/
  | publicMember
  /-- `protected` -/
  | protectedMember
  /-- `private` -/
  | privateMember
  deriving DecidableEq, Repr

/-- A constant: `const NAME = value`. -/
structure ConstantDecl where
  name : String
  value : List Token
  /-- The line of the name. -/
  line : Nat
  deriving DecidableEq, Repr

/-- A method: `public function name(…) { … }`. -/
structure MethodDecl where
  name : String
  /-- The documentation comment before the declaration. -/
  doc? : Option String
  visibility : Visibility
  isStatic : Bool
  /-- The tokens between the braces; none for a declaration that ends in `;`. -/
  body? : Option (List Token)
  /-- The line of the name. -/
  line : Nat
  deriving DecidableEq, Repr

/-- A class: `abstract class Name extends Parent implements I, J { … }`. -/
structure ClassDecl where
  name : String
  isAbstract : Bool
  parent? : Option String
  interfaces : List String
  constants : List ConstantDecl
  methods : List MethodDecl
  /-- The line of the word `class`. -/
  line : Nat
  deriving DecidableEq, Repr

/-- What a file declares, in file order. -/
structure ClassFile where
  /-- The namespace, without a leading backslash. -/
  nameSpace? : Option String
  classes : List ClassDecl
  deriving DecidableEq, Repr

/-- The first method of that name; letter case does not matter. -/
def ClassDecl.method? (c : ClassDecl) (name : String) : Option MethodDecl :=
  c.methods.find? fun m => Text.sameLetters m.name name

/-- The first class of exactly that name. -/
def ClassFile.class? (f : ClassFile) (name : String) : Option ClassDecl :=
  f.classes.find? fun c => c.name == name

end PhpSharp.Php
