/-
Writing the JSON notation.

* `Json.WriteFault`: why a value cannot be written;
* `Json.quote`: a text with the quotes around it and escapes in it;
* `Json.write`: a value as a text without white space;
* `Json.IsWritable`: the value can be written; numbers can, and so can records
  whose fields can, for their keys are texts.
-/
import Deflate.Json.Decimal
import Deflate.Json.Basic

namespace Deflate

namespace Json

/-- Why a value cannot be written. -/
inductive WriteFault where
  /-- A key is no sequence of characters. -/
  | key
  /-- A text is no sequence of characters. -/
  | text
  deriving Repr, DecidableEq

def WriteFault.message : WriteFault → String
  | key => "key must be a string"
  | text => "invalid unicode code point"

/-! ### Texts -/

/-- The hexadecimal digits. -/
def hexDigits : List Char := "0123456789abcdef".toList

/-- A character as it stands between quotes. -/
def escape : Char → List Char
  | '"' => ['\\', '"']
  | '\\' => ['\\', '\\']
  | '\x08' => ['\\', 'b']
  | '\x0c' => ['\\', 'f']
  | '\n' => ['\\', 'n']
  | '\r' => ['\\', 'r']
  | '\t' => ['\\', 't']
  | c =>
      if c < ' ' then
        ['\\', 'u', '0', '0', hexDigits.getD (c.toNat / 16) '0', hexDigits.getD (c.toNat % 16) '0']
      else [c]

/-- A text between quotes. -/
def quote (text : String) : String :=
  "\"" ++ String.ofList (text.toList.flatMap escape) ++ "\""

/-! ### Values -/

mutual

/-- A value as a text; a number that is too large has no digits. -/
def write : Json → Except WriteFault String
  | null => .ok "null"
  | bool b => .ok (if b then "true" else "false")
  | natural n => .ok (toString n)
  | float x => .ok (floatText x)
  | excess => .ok "null"
  | text none => .error .text
  | text (some s) => .ok (quote s)
  | list items => do
      return "[" ++ ",".intercalate (← writeItems items) ++ "]"
  | record fields => do
      return "\x7b" ++ ",".intercalate (← writeFields fields) ++ "\x7d"

/-- The items of a list as texts. -/
def writeItems : List Json → Except WriteFault (List String)
  | [] => .ok []
  | item :: items => do
      return (← item.write) :: (← writeItems items)

/-- The fields of a record as texts. -/
def writeFields : List (Option String × Json) → Except WriteFault (List String)
  | [] => .ok []
  | (none, _) :: _ => .error .key
  | (some key, value) :: fields => do
      return (quote key ++ ":" ++ (← value.write)) :: (← writeFields fields)

end

/-- The value can be written. -/
def IsWritable (value : Json) : Prop :=
  ∃ text, value.write = .ok text

theorem isWritable_natural (n : Nat) : (natural n).IsWritable :=
  ⟨toString n, rfl⟩

theorem isWritable_float (x : Float) : (float x).IsWritable :=
  ⟨floatText x, rfl⟩

/-- A record can be written if its keys are texts and the values of its fields
can be written. -/
theorem isWritable_record {fields : List (Option String × Json)}
    (h : ∀ field ∈ fields, field.1.isSome ∧ field.2.IsWritable) : (record fields).IsWritable := by
  suffices hfields : ∃ texts, writeFields fields = .ok texts by
    obtain ⟨texts, htexts⟩ := hfields
    exact ⟨_, by rw [write, htexts]; rfl⟩
  induction fields with
  | nil => exact ⟨[], rfl⟩
  | cons field fields ih =>
      obtain ⟨key?, value⟩ := field
      obtain ⟨hkey, text, htext⟩ := h _ (.head _)
      obtain ⟨key, rfl⟩ := Option.isSome_iff_exists.mp hkey
      obtain ⟨texts, htexts⟩ := ih fun other hother => h other (.tail _ hother)
      exact ⟨_, by rw [writeFields, htext, htexts]; rfl⟩

/-- The keys of an object are texts. -/
theorem isWritable_object {fields : List (String × Json)}
    (h : ∀ field ∈ fields, field.2.IsWritable) : (object fields).IsWritable := by
  refine isWritable_record fun entry hentry => ?_
  obtain ⟨field, hfield, rfl⟩ := List.mem_map.mp hentry
  exact ⟨rfl, h field hfield⟩

end Json

end Deflate
