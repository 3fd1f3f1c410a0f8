import Spindle.Proofs.Json.Documents
import Spindle.Proofs.Json.Joined
import Spindle.Proofs.Json.Tokens

/-!
# Values that nobody asked for

Every JSON value, of any depth, is passed over as a whole. By induction on the value: a list is read
if each of its items is taken on its own, and an object if its members are.
-/

namespace Spindle.Json

theorem Reader.Takes.padded {r : Reader α} (skip : ∀ s, r.run (skipBlank s) = r.run s)
    {b text e : List Char} {v : α} (before : Blank b) (takes : r.Takes text v) (after : Blank e) :
    r.Takes (b ++ (text ++ e)) v := by
  obtain ⟨left, blank, run⟩ := takes
  refine ⟨left ++ e, blank.append after, fun rest delimits => ?_⟩
  rw [← skip, List.append_assoc, List.append_assoc, skipBlank_append_of_blank before, skip,
    run _ (delimits.blank_append after), List.append_assoc]

namespace Document

variable {strict : Bool}

theorem run_skipBlank (s : List Char) :
    (document strict).run (skipBlank s) = (document strict).run s := run_value_skipBlank [] s

/-- No value starts with the bracket that ends a list. -/
theorem startsItem_of_run {s rest : List Char} {v : Value}
    (run : (document strict).run s = .ok (v, rest)) : StartsItem s := by
  obtain ⟨c, t, found, opens⟩ := document_eq_ok.mp run
  refine ⟨c, t, found, ?_⟩
  rintro rfl
  cases opens with
  | number starts => cases starts

theorem takesItem {d : List Char} {v : Value} (takes : (document strict).Takes d v) :
    (document strict).TakesItem d v where
  starts := by
    obtain ⟨b, -, run⟩ := Reader.whole_eq_ok.mp takes.whole
    exact startsItem_of_run run
  skip := run_skipBlank
  takes := takes

/-- What opens behind a first character is read together with it. -/
theorem takes_of_opens {c : Char} (notBlank : isBlank c = false) {s : List Char} {v : Value}
    (opens : ∀ rest, Delimits rest → Opens strict c (s ++ rest) v rest) :
    (document strict).Takes (c :: s) v :=
  ⟨[], .nil, fun rest delimits =>
    document_eq_ok.mpr ⟨c, s ++ rest, skipBlank_cons notBlank _, opens rest delimits⟩⟩

theorem IsLeaf.takes {text : List Char} {v : Value} (leaf : IsLeaf strict text v) :
    (document strict).Takes text v := by
  obtain ⟨c, s, rfl, notBlank, reads⟩ := leaf
  exact takes_of_opens notBlank fun rest delimits => (reads rest delimits).opens

/-! ### Lists and objects -/

theorem Items.of_joined {ds : List (List Char)} {vs : List Value}
    (each : List.Forall₂ (document strict).TakesItem ds vs) (first : Bool) {b gap : List Char}
    (blank : Blank b) (gap_blank : Blank gap) (rest : List Char) :
    Items strict first (b ++ (joined first ds ++ (gap ++ ']' :: rest))) vs rest := by
  induction each generalizing first b with
  | nil =>
    rw [joined, List.nil_append, ← List.append_assoc]
    exact .close (nextItem_bracket (blank.append gap_blank) first rest)
  | @cons d v ds vs head _ ih =>
    obtain ⟨b', blank', takes⟩ := head.takes
    have delimits : Delimits (following ds ++ (gap ++ ']' :: rest)) :=
      .following ds (.blank_append gap_blank (.cons rfl rest))
    have others := ih false blank'
    rw [joined_false] at others
    rw [joined, List.append_assoc]
    exact .item (nextItem_due blank head.starts first _)
      ((head.skip _).trans (takes _ delimits)) others

/-- Is read as a member of an object with the key and the value. -/
structure MemberText.Reads (strict : Bool) (m : MemberText) (member : String × Value) : Prop where
  before : Blank m.before
  key : Quoted.Reads strict m.body member.1.toList
  after : Blank m.after
  value : (document strict).Takes m.value member.2

theorem Members.of_joined {ts : List MemberText} {ms : List (String × Value)}
    (each : List.Forall₂ (MemberText.Reads strict) ts ms) (first : Bool) {b gap : List Char}
    (blank : Blank b) (gap_blank : Blank gap) (rest : List Char) :
    Members strict first
      (b ++ (joined first (ts.map MemberText.chars) ++ (gap ++ '\x7d' :: rest))) ms rest := by
  induction each generalizing first b with
  | nil =>
    rw [List.map_nil, joined, List.nil_append, ← List.append_assoc]
    exact .close (Record.nextMember_brace (blank.append gap_blank) first rest)
  | @cons t m ts ms head _ ih =>
    obtain ⟨key, v⟩ := m
    obtain ⟨b', blank', takes⟩ := head.value
    have delimits : Delimits (following (ts.map MemberText.chars) ++ (gap ++ '\x7d' :: rest)) :=
      .following _ (.blank_append gap_blank (.cons rfl rest))
    have others := ih false blank'
    rw [joined_false] at others
    rw [List.map_cons, joined, List.append_assoc, ← String.ofList_toList (s := key)]
    exact .member (Record.nextMember_due blank head.before first _)
      (Quoted.read_eq_ok.mpr ⟨_, head.key, rfl⟩) (readColon_append head.after _)
      (takes _ delimits) others

variable {gap : List Char} (blank : Blank gap)
include blank

theorem takes_list {ds : List (List Char)} {vs : List Value}
    (each : List.Forall₂ (document strict).Takes ds vs) :
    (document strict).Takes ('[' :: (separated ds ++ (gap ++ [']']))) (.array vs) := by
  refine takes_of_opens rfl fun rest _ => .list ?_
  have items := Items.of_joined (each.imp fun _ _ => takesItem) true .nil blank rest
  rw [joined_true] at items
  simpa using items

theorem takes_object {ts : List MemberText} {ms : List (String × Value)}
    (each : List.Forall₂ (MemberText.Reads strict) ts ms) :
    (document strict).Takes ('\x7b' :: (separated (ts.map MemberText.chars) ++ (gap ++ ['\x7d'])))
      (.object ms) := by
  refine takes_of_opens rfl fun rest _ => .object ?_
  have members := Members.of_joined each true .nil blank rest
  rw [joined_true] at members
  simpa using members

end Document

/-! ### Every value -/

theorem exists_forall₂ {R : α → β → Prop} {as : List α} (each : ∀ a ∈ as, ∃ b, R a b) :
    ∃ bs, List.Forall₂ R as bs := by
  induction as with
  | nil => exact ⟨[], .nil⟩
  | cons a as ih =>
    obtain ⟨⟨b, head⟩, each⟩ := List.forall_mem_cons.mp each
    obtain ⟨bs, tail⟩ := ih each
    exact ⟨b :: bs, .cons head tail⟩

open Document in
theorem IsJson.exists_takes {t : List Char} (json : IsJson t) :
    ∃ v, (document false).Takes t v := by
  induction json with
  | padded before _ after ih =>
    obtain ⟨v, takes⟩ := ih
    exact ⟨v, takes.padded Document.run_skipBlank before after⟩
  | null => exact ⟨_, isLeaf_null.takes⟩
  | boolean b => exact ⟨_, (isLeaf_boolean b).takes⟩
  | number wellFormed => exact ⟨_, (isLeaf_number wellFormed).takes⟩
  | string body =>
    obtain ⟨cs, reads⟩ := Quoted.read_body body
    exact ⟨_, (isLeaf_string reads).takes⟩
  | emptyList blank => exact ⟨_, takes_list blank .nil⟩
  | list _ _ ih =>
    obtain ⟨vs, each⟩ := exists_forall₂ ih
    exact ⟨_, takes_list .nil each⟩
  | emptyObject blank => exact ⟨_, takes_object blank .nil⟩
  | @object ms _ wellFormed _ ih =>
    have each : ∀ m ∈ ms, ∃ member, MemberText.Reads false m member := by
      intro m mem
      obtain ⟨key, reads⟩ := Quoted.exists_reads (wellFormed m mem).body
      obtain ⟨v, takes⟩ := ih m mem
      rw [← String.toList_ofList (l := key)] at reads
      exact ⟨(String.ofList key, v), (wellFormed m mem).before, reads, (wellFormed m mem).after,
        takes⟩
    obtain ⟨members, each⟩ := exists_forall₂ each
    exact ⟨_, takes_object .nil each⟩

theorem IsJson.startsItem {t : List Char} (json : IsJson t) : StartsItem t := by
  obtain ⟨v, takes⟩ := json.exists_takes
  exact (Document.takesItem takes).starts

theorem skipped_whole {t : List Char} (json : IsJson t) : skipped.whole t = .ok () := by
  obtain ⟨v, takes⟩ := json.exists_takes
  rw [skipped, Reader.whole_map, takes.whole]
  rfl

end Spindle.Json
