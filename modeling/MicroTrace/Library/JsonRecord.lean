import Mathlib.Data.List.Induction
import MicroTrace.Library.JsonText

/- Objects that encode a struct. A field is left out, has a value or cannot be encoded, and one
   field that cannot be encoded fails the whole object. A reader looks a member up by its
   name. -/
namespace Json

inductive Entry where
  | omitted
  | value (v : Value)
  | unsupported

def Entry.encodes : Entry → Bool
  | .unsupported => false
  | _ => true

def Entry.value? : Entry → Option Value
  | .value v => some v
  | _ => none

def Entry.ofOption : Option Value → Entry
  | some v => .value v
  | none => .unsupported

def Entry.Fits (depth : Nat) : Entry → Prop
  | .value v => v.Fits depth
  | _ => True

def entryMember (f : String × Entry) : Option (List Char × Value) :=
  f.2.value?.map fun v => (f.1.toList, v)

def object (fields : List (String × Entry)) : Value := .object (fields.filterMap entryMember)

def record (fields : List (String × Entry)) : Option Value :=
  if fields.all fun f => f.2.encodes then some (object fields) else none

/- Of two members of one name the last counts. -/
def Value.field (name : String) : Value → Option Value
  | .object members => (members.reverse.find? fun m => m.1 = name.toList).map Prod.snd
  | _ => none

def intText (n : Int) : List Char :=
  if n < 0 then '-' :: Nat.toDigits 10 n.natAbs else Nat.toDigits 10 n.natAbs

def textEntry (t : String) : Entry := .value (.string t.toList)

def boolEntry (b : Bool) : Entry := .value (.bool b)

def natEntry (n : Nat) : Entry := .value (.number (Nat.toDigits 10 n))

def intEntry (n : Int) : Entry := .value (.number (intText n))

/- A text with the option omitempty. -/
def textOrOmitted (t : String) : Entry := if t = "" then .omitted else textEntry t

def Value.text? : Value → Option String
  | .string t => some (String.ofList t)
  | _ => none

def Value.bool? : Value → Option Bool
  | .bool b => some b
  | _ => none

def digits? (t : List Char) : Option Nat :=
  if t.all Char.isDigit then some (Nat.ofDigitChars 10 t 0) else none

def Value.nat? : Value → Option Nat
  | .number t => digits? t
  | _ => none

def Value.int? : Value → Option Int
  | .number ('-' :: t) => (digits? t).map fun n : Nat => -(n : Int)
  | .number t => (digits? t).map Int.ofNat
  | _ => none

theorem digits_toDigits (n : Nat) : digits? (Nat.toDigits 10 n) = some n := by
  have digits : (Nat.toDigits 10 n).all Char.isDigit = true := by
    rw [List.all_eq_true]
    intro c member
    exact Nat.isDigit_of_mem_toDigits (by decide) (by decide) member
  rw [digits?, if_pos digits, Nat.ofDigitChars_ten_toDigits]

theorem int_intText (n : Int) : (Value.number (intText n)).int? = some n := by
  unfold intText
  split
  · rename_i negative
    simp only [Value.int?, digits_toDigits, Option.map_some, Option.some.injEq]
    omega
  · rename_i positive
    have unsigned : ∀ t, Nat.toDigits 10 n.natAbs ≠ '-' :: t := by
      intro t signed
      have digit : Char.isDigit '-' :=
        Nat.isDigit_of_mem_toDigits (b := 10) (n := n.natAbs) (by decide) (by decide)
          (by simp [signed])
      cases digit
    rw [Value.int?.eq_def]
    split
    · rename_i t same
      exact absurd (Value.number.inj same) (unsigned t)
    · rename_i t _ same
      cases same
      rw [digits_toDigits, Option.map_some, Option.some.injEq, Int.ofNat_eq_natCast]
      omega
    · rename_i other
      exact absurd rfl (other _)

section Accessors

variable {t : String} {n : Nat} {b : Bool} {i : Int}

@[simp] theorem value_value (v : Value) : (Entry.value v).value? = some v := rfl

@[simp] theorem value_ofOption (v : Option Value) : (Entry.ofOption v).value? = v := by
  cases v <;> rfl

@[simp] theorem encodes_value (v : Value) : (Entry.value v).encodes = true := rfl

@[simp] theorem value_omitted : Entry.omitted.value? = none := rfl

@[simp] theorem encodes_omitted : Entry.omitted.encodes = true := rfl

@[simp] theorem encodes_ofOption (v : Option Value) : (Entry.ofOption v).encodes = v.isSome := by
  cases v <;> rfl

@[simp] theorem encodes_text : (textEntry t).encodes = true := rfl

@[simp] theorem encodes_nat : (natEntry n).encodes = true := rfl

@[simp] theorem encodes_int : (intEntry i).encodes = true := rfl

@[simp] theorem encodes_bool : (boolEntry b).encodes = true := rfl

@[simp] theorem encodes_textOrOmitted : (textOrOmitted t).encodes = true := by
  unfold textOrOmitted
  split <;> rfl

@[simp] theorem entry_text : (textEntry t).value?.bind Value.text? = some t := by
  rw [textEntry, value_value, Option.bind_some, Value.text?, String.ofList_toList]

@[simp] theorem entry_nat : (natEntry n).value?.bind Value.nat? = some n := digits_toDigits n

@[simp] theorem entry_int : (intEntry i).value?.bind Value.int? = some i := int_intText i

@[simp] theorem entry_bool : (boolEntry b).value?.bind Value.bool? = some b := rfl

@[simp] theorem entry_textOrOmitted :
    ((textOrOmitted t).value?.map Value.text?).getD (some "") = some t := by
  unfold textOrOmitted
  split
  · rename_i empty
    rw [empty]
    rfl
  · rw [textEntry, value_value, Option.map_some, Option.getD_some, Value.text?,
      String.ofList_toList]

end Accessors

theorem record_isSome (fields : List (String × Entry)) :
    (record fields).isSome = fields.all fun f => f.2.encodes := by
  unfold record
  split
  · rename_i all
    exact all.symm
  · rename_i all
    exact (Bool.eq_false_iff.mpr all).symm

theorem record_eq {fields : List (String × Entry)} {v : Value} (made : record fields = some v) :
    v = object fields := by
  unfold record at made
  split at made
  · exact (Option.some.inj made).symm
  · cases made

theorem record_encodes {fields : List (String × Entry)} {v : Value}
    (made : record fields = some v) : ∀ f ∈ fields, f.2.encodes = true := by
  unfold record at made
  split at made
  · rename_i all
    exact List.all_eq_true.mp all
  · cases made

theorem field_single (name : String) (members : List (List Char × Value))
    (m : List Char × Value) : Value.field name (.object (members ++ [m])) =
      if m.1 = name.toList then some m.2 else Value.field name (.object members) := by
  simp only [Value.field, List.reverse_append, List.reverse_singleton, List.singleton_append,
    List.find?_cons]
  by_cases same : m.1 = name.toList <;> simp [same]

theorem field_absent {name : String} {fields : List (String × Entry)}
    (absent : fields.lookup name = none) : (object fields).field name = none := by
  unfold object Value.field
  rw [Option.map_eq_none_iff, List.find?_eq_none]
  intro m member
  obtain ⟨f, there, made⟩ := List.mem_filterMap.mp (List.mem_reverse.mp member)
  obtain ⟨v, _, rfl⟩ := Option.map_eq_some_iff.mp made
  intro same
  have named : f.1 = name := String.toList_inj.mp (of_decide_eq_true same)
  have other := List.lookup_eq_none_iff.mp absent f there
  simp [named] at other

theorem field_object {fields : List (String × Entry)} (apart : (fields.map Prod.fst).Nodup)
    (name : String) : (object fields).field name = (fields.lookup name).bind Entry.value? := by
  induction fields using List.reverseRecOn with
  | nil => rfl
  | append_singleton fields f ih =>
    rw [List.map_append, List.map_singleton] at apart
    have fresh := List.disjoint_of_nodup_append apart
    have found := ih apart.of_append_left
    rw [List.lookup_append, object, List.filterMap_append]
    obtain ⟨key, e⟩ := f
    by_cases last : key = name
    · subst last
      have absent : fields.lookup key = none := by
        refine List.lookup_eq_none_iff.mpr ?_
        intro g there
        have other : g.1 ≠ key := fun same =>
          fresh (List.mem_map_of_mem there) (by simp [same])
        simpa using Ne.symm other
      rw [absent, Option.none_or, List.lookup_cons_self, Option.bind_some]
      cases e with
      | value w =>
        have told : entryMember (key, .value w) = some (key.toList, w) := rfl
        rw [List.filterMap_cons_some told, List.filterMap_nil, field_single, if_pos rfl]
        rfl
      | _ =>
        rw [List.filterMap_cons_none rfl, List.filterMap_nil, List.append_nil]
        exact field_absent absent
    · have unasked : List.lookup name [(key, e)] = none := by
        simpa using Ne.symm last
      rw [unasked, Option.or_none, ← found]
      cases e with
      | value w =>
        have told : entryMember (key, .value w) = some (key.toList, w) := rfl
        have apart' : ¬ key.toList = name.toList := fun same => last (String.toList_inj.mp same)
        rw [List.filterMap_cons_some told, List.filterMap_nil, field_single, if_neg apart']
        rfl
      | _ =>
        rw [List.filterMap_cons_none rfl, List.filterMap_nil, List.append_nil]
        rfl

theorem find_named {A : Type} {fields : List (String × A)} {f : String × A}
    (apart : (fields.map Prod.fst).Nodup) (listed : f ∈ fields) :
    (fields.find? fun g => g.1.toList = f.1.toList) = some f := by
  induction fields with
  | nil => cases listed
  | cons g fields ih =>
    obtain ⟨fresh, later⟩ := List.nodup_cons.mp apart
    rcases List.mem_cons.mp listed with rfl | behind
    · exact List.find?_cons_of_pos (decide_eq_true rfl)
    · have other : ¬ g.1.toList = f.1.toList := by
        intro same
        exact fresh (String.toList_inj.mp same ▸ List.mem_map_of_mem behind)
      rw [List.find?_cons_of_neg (by simpa using other), ih later behind]

theorem membersFit_of {depth : Nat} {members : List (List Char × Value)}
    (fit : ∀ m ∈ members, m.2.Fits depth) : MembersFit depth members := by
  induction members with
  | nil => trivial
  | cons m members ih =>
    exact ⟨fit m List.mem_cons_self, ih fun n member => fit n (List.mem_cons_of_mem m member)⟩

theorem itemsFit_of {depth : Nat} {items : List Value} (fit : ∀ v ∈ items, v.Fits depth) :
    ItemsFit depth items := by
  induction items with
  | nil => trivial
  | cons v items ih =>
    exact ⟨fit v List.mem_cons_self, ih fun w member => fit w (List.mem_cons_of_mem v member)⟩

theorem fits_array {depth : Nat} {items : List Value} (fit : ∀ v ∈ items, v.Fits depth) :
    (Value.array items).Fits (depth + 1) := itemsFit_of fit

theorem fits_object {fields : List (String × Entry)} {depth : Nat}
    (fit : ∀ f ∈ fields, f.2.Fits depth) : (object fields).Fits (depth + 1) := by
  refine membersFit_of ?_
  intro m member
  obtain ⟨f, there, told⟩ := List.mem_filterMap.mp member
  obtain ⟨w, valued, rfl⟩ := Option.map_eq_some_iff.mp told
  have held := fit f there
  cases e : f.2 with
  | value u =>
    rw [e] at valued held
    cases valued
    exact held
  | _ => simp [e, Entry.value?] at valued

/- Behind a minus sign the digits are read as without one. -/
theorem next_neg {c : Char} {d : Digits} (begun : Digits.begin c = some d) (digit : c.isDigit) :
    Digits.neg.next c = some d := by
  have positive : c ≠ '-' := by
    rintro rfl
    cases digit
  rw [Digits.begin, if_neg positive] at begun
  exact begun

theorem number_int (n : Int) : IsNumber (intText n) := by
  unfold intText
  split
  · obtain ⟨d, read, whole⟩ := number_nat n.natAbs
    refine ⟨d, ?_, whole⟩
    cases text : Nat.toDigits 10 n.natAbs with
    | nil =>
      rw [text] at read
      cases read
    | cons c more =>
      have digit : c.isDigit :=
        Nat.isDigit_of_mem_toDigits (b := 10) (n := n.natAbs) (by decide) (by decide)
          (by simp [text])
      rw [text] at read
      obtain ⟨first, begun, rest⟩ := Option.bind_eq_some_iff.mp read
      simp [Digits.read, Digits.begin, next_neg begun digit, rest]
  · exact number_nat n.natAbs

section EntriesFit

variable {t : String} {n : Nat} {b : Bool} {i : Int} {depth : Nat}

@[simp] theorem fits_text : (textEntry t).Fits depth := by
  simp only [textEntry, Entry.Fits, Value.Fits]

@[simp] theorem fits_nat : (natEntry n).Fits depth := by
  simp only [natEntry, Entry.Fits, Value.Fits, number_nat]

@[simp] theorem fits_int : (intEntry i).Fits depth := by
  simp only [intEntry, Entry.Fits, Value.Fits, number_int]

@[simp] theorem fits_bool : (boolEntry b).Fits depth := by
  simp only [boolEntry, Entry.Fits, Value.Fits]

@[simp] theorem fits_value {v : Value} : (Entry.value v).Fits depth ↔ v.Fits depth := Iff.rfl

@[simp] theorem fits_ofOption {o : Option Value} :
    (Entry.ofOption o).Fits depth ↔ ∀ v, o = some v → v.Fits depth := by
  cases o <;> simp [Entry.ofOption, Entry.Fits]

@[simp] theorem fits_omitted : Entry.omitted.Fits depth := trivial

@[simp] theorem fits_textOrOmitted : (textOrOmitted t).Fits depth := by
  unfold textOrOmitted
  split
  · exact fits_omitted
  · exact fits_text

end EntriesFit

end Json
