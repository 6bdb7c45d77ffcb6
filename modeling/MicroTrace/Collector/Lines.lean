import MicroTrace.Library.Json
import MicroTrace.Library.Utf8
import MicroTrace.Collector.Reader

/- The other wire format of the reader: one JSON object a line. bufio.Scanner cuts the stream
   into lines and gives up at one that does not fit its buffer; json.Unmarshal rejects a line
   that is not one JSON value, or in which a known field has a value of the wrong type, and
   such a line is skipped. -/
namespace CollectorAgent
open CollectorModel Json

inductive Field where
  | type
  | pid
  | comm
  | saddr
  | daddr
  | dport
  | latencyUs
  | jitterUs
  deriving DecidableEq

def Field.name : Field → String
  | .type => "type"
  | .pid => "pid"
  | .comm => "comm"
  | .saddr => "saddr"
  | .daddr => "daddr"
  | .dport => "dport"
  | .latencyUs => "latency_us"
  | .jitterUs => "jitter_us"

def fields : List Field :=
  [.type, .pid, .comm, .saddr, .daddr, .dport, .latencyUs, .jitterUs]

/- The long s and the Kelvin sign are the characters outside ASCII that fold to a letter. -/
def foldRune (c : Char) : Char :=
  if 'a' ≤ c ∧ c ≤ 'z' then Char.ofNat (c.toNat - 32)
  else if c = Char.ofNat 0x17F then 'S'
  else if c = Char.ofNat 0x212A then 'K'
  else c

/-- A key names a field exactly or up to case. -/
def findField (key : List Char) : Option Field :=
  (fields.find? fun f => f.name.toList = key).or
    (fields.find? fun f => f.name.toList.map foldRune = key.map foldRune)

def parseUint (text : List Char) : Option Nat :=
  if text.all Char.isDigit ∧ Nat.ofDigitChars 10 text 0 < 2 ^ 64 then
    some (Nat.ofDigitChars 10 text 0)
  else none

/- A null leaves the field as it is. -/
def storeText (e : Event) (set : String → Event) : Value → Option Event
  | .null => some e
  | .string text => some (set (String.ofList text))
  | _ => none

def storeUint (width : Nat) (e : Event) (set : Nat → Event) : Value → Option Event
  | .null => some e
  | .number text =>
      (parseUint text).bind fun n => if n < 2 ^ width then some (set n) else none
  | _ => none

def storeField (e : Event) : Field → Value → Option Event
  | .type => storeText e fun t => { e with type := .ofText t }
  | .pid => storeUint 32 e fun n => { e with pid := UInt32.ofNat n }
  | .comm => storeText e fun t => { e with comm := t }
  | .saddr => storeText e fun t => { e with sAddr := t }
  | .daddr => storeText e fun t => { e with dAddr := t }
  | .dport => storeUint 16 e fun n => { e with dPort := UInt16.ofNat n }
  | .latencyUs => storeUint 64 e fun n => { e with latencyUs := UInt64.ofNat n }
  | .jitterUs => storeUint 64 e fun n => { e with jitterUs := UInt64.ofNat n }

def storeMember (e : Event) (m : List Char × Value) : Option Event :=
  match findField m.1 with
  | none => some e
  | some f => storeField e f m.2

def zeroEvent : Event := ⟨.ofText "", 0, "", "", "", 0, 0, 0⟩

/-- json.Unmarshal of a line into a new Event. A type error lets the rest of the object be
    stored but is returned all the same. -/
def unmarshalEvent (line : List UInt8) : Option Event :=
  match parse (Utf8.decode line) with
  | some .null => some zeroEvent
  | some (.object members) => members.foldlM storeMember zeroEvent
  | _ => none

def maxScanTokenSize : Nat := 64 * 1024

def newline : UInt8 := 10

def dropCR (line : List UInt8) : List UInt8 :=
  if line.getLast? = some 13 then line.dropLast else line

def handleLine (cancelAt : Option Nat) (line : List UInt8) (loop : Option Nat → Reading) :
    Reading :=
  match unmarshalEvent (dropCR line) with
  | none => loop cancelAt
  | some e => send cancelAt e loop

/-- `line` has been read of the current line. The last line may lack its newline. -/
def readJSONLoop : Option Nat → List UInt8 → List UInt8 → Reading
  | cancelAt, line, [] =>
      if line = [] then ⟨[], .endOfInput⟩
      else handleLine cancelAt line fun _ => ⟨[], .endOfInput⟩
  | cancelAt, line, b :: rest =>
      if b = newline then handleLine cancelAt line fun cancelAt => readJSONLoop cancelAt [] rest
      else if line.length + 1 < maxScanTokenSize then readJSONLoop cancelAt (line ++ [b]) rest
      else ⟨[], .lineTooLong⟩

def readJSON (cancelAt : Option Nat) (bytes : List UInt8) : Reading :=
  readJSONLoop cancelAt [] bytes

theorem loop_line (cancelAt : Option Nat) (line more rest : List UInt8) (one : newline ∉ more)
    (short : line.length + more.length < maxScanTokenSize) :
    readJSONLoop cancelAt line (more ++ newline :: rest) =
      handleLine cancelAt (line ++ more) fun cancelAt => readJSONLoop cancelAt [] rest := by
  induction more generalizing line with
  | nil => rw [List.nil_append, List.append_nil, readJSONLoop, if_pos rfl]
  | cons b more ih =>
    have other : b ≠ newline := fun same => one (same ▸ List.mem_cons_self)
    rw [List.length_cons] at short
    rw [List.cons_append, readJSONLoop, if_neg other, if_pos (by omega),
      ih (line ++ [b]) (fun member => one (List.mem_cons_of_mem _ member)) (by simp; omega),
      List.append_assoc]
    rfl

structure Stands (line : List UInt8) (e : Event) : Prop where
  one : newline ∉ line
  short : line.length < maxScanTokenSize
  read : unmarshalEvent (dropCR line) = some e

theorem readJSON_lines {A : Type} (items : List A) (line : A → List UInt8) (event : A → Event)
    (stands : ∀ a ∈ items, Stands (line a) (event a)) (cancelAt : Option Nat) :
    readJSON cancelAt (items.flatMap fun a => line a ++ [newline]) =
      upTo cancelAt (items.map event) .endOfInput := by
  induction items generalizing cancelAt with
  | nil => rfl
  | cons a items ih =>
    have first := stands a List.mem_cons_self
    have later := ih fun b member => stands b (List.mem_cons_of_mem _ member)
    have read : readJSON cancelAt ((a :: items).flatMap fun a => line a ++ [newline]) =
        handleLine cancelAt (line a) fun cancelAt =>
          readJSON cancelAt (items.flatMap fun a => line a ++ [newline]) := by
      rw [List.flatMap_cons, List.append_assoc]
      exact loop_line cancelAt [] (line a) _ first.one (by simpa using first.short)
    rw [read, handleLine, first.read, List.map_cons, upTo]
    simp only [later]

end CollectorAgent
