import CallPlan.Abi.AbiType.Reader
import CallPlan.Abi.Function.Basic
/-!
# Reading a function fragment

A fragment is written as `function name(type name, …) words returns (type name, …)`.  The word `function`, the parameter
names, the words between and the outputs may be missing.  The components of a tuple may carry names of their own, so a
tuple's text is first rebuilt from the canonical texts of its components and then read as a type.
-/
namespace CallPlan

/-- Words that may stand behind a parameter's type and say nothing about it. -/
def Param.modifiers : List (List Char) :=
  ["memory".toList, "calldata".toList, "storage".toList, "indexed".toList, "payable".toList]

/-- The text up to the first blank outside parentheses, and the rest from that blank on. -/
def Param.splitKind (d : Nat) : List Char → List Char × List Char
  | []     => ([], [])
  | c :: s =>
    if Text.isBlank c && d == 0 then ([], c :: s)
    else
      let (kind, rest) := splitKind (Text.depthAfter d c) s
      (c :: kind, rest)

/-- How a type text is put together. -/
inductive Param.Shape where
  /-- A text to be read as it stands. -/
  | plain (text : List Char)
  /-- Components in parentheses, and what follows them. -/
  | tuple (components rest : List Char)
  /-- An open parenthesis that nothing closes. -/
  | unclosed

def Param.shape (s : List Char) : Param.Shape :=
  match AbiType.dropTupleWord s with
  | '(' :: r =>
    match Text.closing? 0 r with
    | some (components, rest) => .tuple components rest
    | none                    => .unclosed
  | t        => .plain t

/-- The name among the words behind a type: at most one word that is no modifier. -/
def Param.readName? (s : List Char) : Option String :=
  match (Text.words s).filter (!Param.modifiers.contains ·) with
  | []     => some ""
  | [name] => some (String.ofList name)
  | _      => none

/-- The canonical text of a tuple with these components, followed by a rest. -/
def Param.tupleText (components : List Param) (rest : List Char) : List Char :=
  '(' :: Text.joinWith [','] (AbiType.charsAll (components.map Param.kind)) ++ ')' :: rest

theorem Param.length_splitKind_le (s : List Char) : ∀ d, (Param.splitKind d s).1.length ≤ s.length := by
  induction s with
  | nil => intro d; simp [Param.splitKind]
  | cons c s ih =>
    intro d
    rw [Param.splitKind]
    split
    · simp
    · exact Nat.succ_le_succ (ih _)

theorem Param.length_of_shape {s components rest : List Char} (h : Param.shape s = .tuple components rest) :
    components.length < s.length := by
  unfold Param.shape at h
  split at h
  · rename_i r hr
    split at h
    · rename_i hc
      cases h
      have h1 := AbiType.length_dropTupleWord_le s
      have h2 := Text.length_of_closing? _ _ _ _ hc
      simp only [hr, List.length_cons] at h1
      omega
    · cases h
  · cases h

/-- Reads one parameter: a type, modifiers, and a name if there is one. -/
def Param.read? (s : List Char) : Option Param :=
  match _h : Param.shape (Param.splitKind 0 s).1 with
  | .unclosed   => none
  | .plain text => finish text
  | .tuple list rest =>
    match (Text.pieces list).attach.mapM fun ⟨p, _⟩ => Param.read? (Text.trim p) with
    | some components => finish (Param.tupleText components rest)
    | none            => none
termination_by s.length
decreasing_by
  have h1 := Param.length_of_shape _h
  have h2 := Param.length_splitKind_le s 0
  have h3 := Text.length_le_of_mem_pieces ‹p ∈ Text.pieces list›
  have h4 := Text.length_trim_le p
  omega
where
  /-- The parameter whose type has the canonical text `kind`. -/
  finish (kind : List Char) : Option Param :=
    match AbiType.read (Text.trim kind) with
    | .error _ => none
    | .ok ty   => (Param.readName? (Param.splitKind 0 s).2).map (⟨·, ty⟩)

/-- Reads the parameters between commas. -/
def Param.readList? (s : List Char) : Option (List Param) :=
  (Text.pieces s).mapM fun p => Param.read? (Text.trim p)

namespace Function

/-- The characters of a function name: ASCII letters and digits, the underscore and the dollar sign. -/
def isNameChar (c : Char) : Bool := c.isAlphanum || c == '_' || c == '$'

/-- The outputs behind the word `returns`.  Without that word there are none. -/
def readOutputs? (s : List Char) : Option (List Param) :=
  match Text.after? "returns".toList s with
  | none   => some []
  | some r =>
    match Text.trimStart r with
    | '(' :: t =>
      match Text.closing? 0 t with
      | some (list, _) => Param.readList? list
      | none           => none
    | _ => none

/-- The text without the word `function` and the blanks behind it. -/
def dropKeyword (s : List Char) : List Char :=
  match Text.dropWord? "function ".toList s with
  | some r => Text.trimStart r
  | none   => s

/-- Reads a fragment from its characters. -/
def read? (s : List Char) : Option Function :=
  match Text.splitFirst? '(' (dropKeyword (Text.trim s)) with
  | none           => none
  | some (name, r) =>
    let name := Text.trim name
    if name.isEmpty || !name.all isNameChar then none
    else
      match Text.closing? 0 r with
      | none              => none
      | some (list, rest) =>
        match Param.readList? list, readOutputs? (Text.trim rest) with
        | some inputs, some outputs => some ⟨String.ofList name, inputs, outputs⟩
        | _,           _            => none

/-- The function that a fragment writes.  The error quotes the whole text. -/
def ofText (s : String) : Except AbiError Function :=
  match read? s.toList with
  | some f => .ok f
  | none   => .error (.invalidSignature s)

end Function
end CallPlan
