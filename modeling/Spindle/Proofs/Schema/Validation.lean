import Mathlib.Data.Rat.Defs
import Mathlib.Algebra.Order.Field.Rat
import Spindle.Schema.Basic

/-!
# Validation

When a value follows a schema of draft 7. The keywords that are looked at are those that schemas of
records have; all others describe.
-/

namespace Spindle

open Json (Value Literal)

/-! ### Numbers -/

namespace Json.Literal

/-- The number that a literal stands for. -/
def value (l : Literal) : ℚ :=
  let decimals := l.fraction.getD []
  let power : Int := l.exponent.elim 0 Exponent.power - decimals.length
  (if l.negative then -1 else 1) * digitsValue (l.whole ++ decimals) * 10 ^ power

/-- An integer without point and exponent that is not `-0`. -/
structure IsPlain (l : Literal) : Prop where
  fraction : l.fraction = none
  exponent : l.exponent = none
  notMinusZero : l.negative = true → l.whole ≠ ['0']

end Json.Literal

namespace Schema

namespace Word

def least : Word → Int
  | uint64 | uint32 => 0
  | int32 => -2 ^ 31

def greatest : Word → Int
  | uint64 => 2 ^ 64 - 1
  | uint32 => 2 ^ 32 - 1
  | int32 => 2 ^ 31 - 1

def Holds (w : Word) (q : ℚ) : Prop := w.least ≤ q ∧ q ≤ w.greatest

instance (w : Word) (q : ℚ) : Decidable (w.Holds q) := inferInstanceAs (Decidable (_ ∧ _))

def ofFormat? (format : String) : Option Word :=
  [uint64, uint32, int32].find? (·.format = format)

end Word

/-! ### One schema -/

def keyword (schema : Value) (key : String) : Option Value :=
  match schema with
  | .object members => members.lookup key
  | _ => none

/-- A string, or the strings of a list. -/
def strings : Value → List String
  | .string s => [s]
  | .array items => items.filterMap fun
    | .string s => some s
    | _ => none
  | _ => []

/-- The types that a value has. -/
def types : Value → List String
  | .null => ["null"]
  | .boolean _ => ["boolean"]
  | .number l => "number" :: if l.value.den = 1 then ["integer"] else []
  | .string _ => ["string"]
  | .array _ => ["array"]
  | .object _ => ["object"]

/-- The types that a schema allows, if it says so. -/
def allowed (schema : Value) : Option (List String) := (keyword schema "type").map strings

def typeHolds (schema doc : Value) : Bool :=
  match allowed schema with
  | none => true
  | some ts => ts.any (types doc).contains

/-- Only strings are listed. -/
def enumHolds (schema doc : Value) : Bool :=
  match keyword schema "enum", doc with
  | none, _ => true
  | some listed, .string s => (strings listed).contains s
  | some _, _ => false

/-- A format is a range of numbers. -/
def formatHolds (schema doc : Value) : Bool :=
  match keyword schema "format", doc with
  | some (.string format), .number l => (Word.ofFormat? format).all fun w => w.Holds l.value
  | _, _ => true

def minimumHolds (schema doc : Value) : Bool :=
  match keyword schema "minimum", doc with
  | some (.number least), .number l => least.value ≤ l.value
  | _, _ => true

def requiredHolds (schema doc : Value) : Bool :=
  match keyword schema "required", doc with
  | some keys, .object members => (strings keys).all fun key => (members.lookup key).isSome
  | _, _ => true

/-- What a schema asks of a value without another schema. -/
def holds (schema doc : Value) : Bool :=
  match schema with
  | .boolean b => b
  | .object _ =>
    typeHolds schema doc && enumHolds schema doc && formatHolds schema doc &&
      minimumHolds schema doc && requiredHolds schema doc
  | _ => false

/-! ### Schemas inside a schema -/

/-- The items and members of a value, each with the schema for it. -/
def parts (schema doc : Value) : List (Value × Value) :=
  match doc with
  | .array items =>
    match keyword schema "items" with
    | some item => items.map fun v => (item, v)
    | none => []
  | .object members =>
    match keyword schema "properties" with
    | some (.object properties) =>
      members.filterMap fun (key, v) => (properties.lookup key).map fun s => (s, v)
    | _ => []
  | _ => []

/-- The schemas of `anyOf` or `oneOf`. -/
def choices (schema : Value) (key : String) : List Value :=
  match keyword schema key with
  | some (.array schemas) => schemas
  | _ => []

/-- The definition that a reference names. -/
def resolve (root reference : Value) : Option Value :=
  match keyword root "definitions", reference with
  | some (.object definitions), .string r =>
    (definitions.find? fun d => "#/definitions/" ++ d.1 = r).map Prod.snd
  | _, _ => none

/-- How many answers are yes, if all are there. -/
def count : List (Option Bool) → Option Nat
  | [] => some 0
  | answer :: answers => do
    let yes ← answer
    let others ← count answers
    some (if yes then others + 1 else others)

/-- Whether a value follows a schema, if so many schemas inside one another are enough to tell.
Beside a reference nothing counts. -/
def follows (root : Value) : Nat → Value → Value → Option Bool
  | 0, _, _ => none
  | fuel + 1, schema, doc =>
    match keyword schema "$ref" with
    | some reference => (resolve root reference).bind fun target => follows root fuel target doc
    | none => do
      let inner ← count ((parts schema doc).map fun p => follows root fuel p.1 p.2)
      let any ← count ((choices schema "anyOf").map fun s => follows root fuel s doc)
      let one ← count ((choices schema "oneOf").map fun s => follows root fuel s doc)
      some (holds schema doc && inner = (parts schema doc).length &&
        (choices schema "anyOf" = [] || 0 < any) && (choices schema "oneOf" = [] || one = 1))

def Valid (root schema doc : Value) : Prop := ∃ fuel, follows root fuel schema doc = some true

/-- The number `l` stands in a value where its schema, or one that this leads to, asks for an
integer. -/
inductive AsksInteger (root : Value) : Value → Value → Literal → Prop where
  | here {schema : Value} {l : Literal} (alone : keyword schema "$ref" = none)
      (integer : ∃ ts, allowed schema = some ts ∧ "integer" ∈ ts) :
      AsksInteger root schema (.number l) l
  | reference {schema doc reference target : Value} {l : Literal}
      (refers : keyword schema "$ref" = some reference)
      (found : resolve root reference = some target)
      (asks : AsksInteger root target doc l) : AsksInteger root schema doc l
  | part {schema doc : Value} {p : Value × Value} {l : Literal}
      (alone : keyword schema "$ref" = none) (part : p ∈ parts schema doc)
      (asks : AsksInteger root p.1 p.2 l) : AsksInteger root schema doc l
  | choice {schema doc s : Value} {l : Literal} (alone : keyword schema "$ref" = none)
      (choice : s ∈ choices schema "anyOf" ++ choices schema "oneOf")
      (asks : AsksInteger root s doc l) : AsksInteger root schema doc l

/-! ### What a valid value passes -/

theorem count_cons {answer : Option Bool} {answers : List (Option Bool)} {n : Nat} :
    count (answer :: answers) = some n ↔
      ∃ yes others, answer = some yes ∧ count answers = some others ∧
        n = if yes then others + 1 else others := by
  cases answer <;> cases others : count answers <;> simp [count, others, eq_comm]

theorem mem_of_count_pos {answers : List (Option Bool)} {n : Nat} (counted : count answers = some n)
    (pos : 0 < n) : some true ∈ answers := by
  induction answers generalizing n with
  | nil =>
    cases counted
    cases pos
  | cons answer answers ih =>
    obtain ⟨yes, others, rfl, rest, rfl⟩ := count_cons.mp counted
    cases yes with
    | true => exact List.mem_cons_self
    | false => exact List.mem_cons_of_mem _ (ih rest pos)

theorem count_le {answers : List (Option Bool)} {n : Nat} (counted : count answers = some n) :
    n ≤ answers.length := by
  induction answers generalizing n with
  | nil =>
    cases counted
    exact Nat.le_refl 0
  | cons answer answers ih =>
    obtain ⟨yes, others, -, rest, rfl⟩ := count_cons.mp counted
    have := ih rest
    rw [List.length_cons]
    split <;> omega

theorem eq_true_of_count_length {answers : List (Option Bool)}
    (counted : count answers = some answers.length) : ∀ answer ∈ answers, answer = some true := by
  induction answers with
  | nil => nofun
  | cons answer answers ih =>
    obtain ⟨yes, others, rfl, rest, all⟩ := count_cons.mp counted
    have := count_le rest
    rw [List.length_cons] at all
    cases yes with
    | false =>
      rw [if_neg Bool.false_ne_true] at all
      omega
    | true =>
      rw [if_pos rfl, Nat.succ_inj] at all
      exact List.forall_mem_cons.mpr ⟨rfl, ih (all ▸ rest)⟩

section
variable {root schema doc : Value} {fuel : Nat}

theorem follows_reference {reference : Value} (refers : keyword schema "$ref" = some reference) :
    follows root (fuel + 1) schema doc =
      (resolve root reference).bind fun target => follows root fuel target doc := by
  rw [follows, refers]

structure Passes (root : Value) (fuel : Nat) (schema doc : Value) : Prop where
  holds : holds schema doc = true
  parts : ∀ p ∈ parts schema doc, follows root fuel p.1 p.2 = some true
  choice : ∀ key ∈ ["anyOf", "oneOf"], choices schema key ≠ [] →
    ∃ s ∈ choices schema key, follows root fuel s doc = some true

theorem passes_of_follows (alone : keyword schema "$ref" = none)
    (valid : follows root (fuel + 1) schema doc = some true) : Passes root fuel schema doc := by
  rw [follows, alone] at valid
  simp only [Option.bind_eq_bind, Option.bind_eq_some_iff, Option.some.injEq, Bool.and_eq_true,
    Bool.or_eq_true, decide_eq_true_eq] at valid
  obtain ⟨inner, all, any, some, one, only, ⟨⟨holds, rfl⟩, anyOf⟩, oneOf⟩ := valid
  have chosen {key : String} {n : Nat} (pos : 0 < n)
      (counted : count ((choices schema key).map fun s => follows root fuel s doc) = .some n) :
      ∃ s ∈ choices schema key, follows root fuel s doc = .some true :=
    List.mem_map.mp (mem_of_count_pos counted pos)
  refine ⟨holds, fun p part => ?_, fun key mem => ?_⟩
  · have answers : count ((parts schema doc).map fun p => follows root fuel p.1 p.2) =
        .some ((parts schema doc).map fun p => follows root fuel p.1 p.2).length := by
      rwa [List.length_map]
    exact eq_true_of_count_length answers _ (List.mem_map_of_mem part)
  · obtain rfl | rfl : key = "anyOf" ∨ key = "oneOf" := by simpa using mem
    · exact fun notEmpty => chosen (anyOf.resolve_left notEmpty) some
    · exact fun notEmpty => chosen (by have := oneOf.resolve_left notEmpty; omega) only

end

/-! ### What a schema asserts by some members -/

/-- The keywords that are more than a description. -/
def assertions : List String :=
  ["$ref", "type", "enum", "format", "minimum", "required", "items", "properties", "anyOf", "oneOf"]

/-- Descriptions apart, a schema has these members. -/
structure Asserts (schema : Value) (members : List (String × Value)) : Prop where
  isObject : ∃ all, schema = .object all
  keywords : ∀ key ∈ assertions, keyword schema key = members.lookup key

namespace Asserts

variable {schema doc : Value} {members : List (String × Value)} (asserts : Asserts schema members)
include asserts

theorem keyword_eq (key : String) (mem : key ∈ assertions) :
    keyword schema key = keyword (.object members) key := asserts.keywords key mem

theorem holds_eq : holds schema doc = holds (.object members) doc := by
  obtain ⟨all, rfl⟩ := asserts.isObject
  simp only [holds, typeHolds, allowed, enumHolds, formatHolds, minimumHolds, requiredHolds,
    asserts.keyword_eq "type" (by decide), asserts.keyword_eq "enum" (by decide),
    asserts.keyword_eq "format" (by decide), asserts.keyword_eq "minimum" (by decide),
    asserts.keyword_eq "required" (by decide)]

theorem parts_eq : parts schema doc = parts (.object members) doc := by
  simp only [parts, asserts.keyword_eq "items" (by decide),
    asserts.keyword_eq "properties" (by decide)]

theorem choices_eq (key : String) (mem : key ∈ assertions) :
    choices schema key = choices (.object members) key := by
  simp only [choices, asserts.keyword_eq key mem]

theorem follows_eq (root : Value) (fuel : Nat) :
    follows root fuel schema doc = follows root fuel (.object members) doc := by
  cases fuel with
  | zero => rfl
  | succ fuel =>
    simp only [follows, asserts.keyword_eq "$ref" (by decide), asserts.holds_eq,
      asserts.parts_eq, asserts.choices_eq "anyOf" (by decide),
      asserts.choices_eq "oneOf" (by decide)]

theorem asksInteger {root : Value} {l : Literal}
    (asks : AsksInteger root (.object members) doc l) : AsksInteger root schema doc l := by
  have same := asserts.keyword_eq "$ref" (by decide)
  cases asks with
  | here alone integer =>
    refine .here (same.trans alone) ?_
    rwa [allowed, asserts.keyword_eq "type" (by decide)]
  | reference refers found asks => exact .reference (same.trans refers) found asks
  | part alone part asks => exact .part (same.trans alone) (asserts.parts_eq ▸ part) asks
  | choice alone choice asks =>
    refine .choice (same.trans alone) ?_ asks
    rwa [asserts.choices_eq "anyOf" (by decide), asserts.choices_eq "oneOf" (by decide)]

end Asserts

end Schema

end Spindle
