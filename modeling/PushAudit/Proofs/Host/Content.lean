import PushAudit.Host.Basic
import PushAudit.Proofs.Script.Value

namespace PushAudit.Host

variable (answer : (q : Host.Question) → Host.Answer q)

def kindAt (p : Path) : Option Kind := answer (.kind p)

def contentAt (p : Path) : Except Fault ByteArray := answer (.read p)

def inputContent : Except Fault ByteArray := answer .input

inductive Unreadable : Except Fault ByteArray → Prop
  | fault (why : Fault) : Unreadable (.error why)
  | notUtf8 {bytes : ByteArray} (h : ¬ bytes.IsValidUTF8) : Unreadable (.ok bytes)

theorem decode_of_valid {bytes : ByteArray} (h : bytes.IsValidUTF8) :
    decode bytes = .ok (String.fromUTF8 bytes h) := by
  simp only [decode, String.fromUTF8?, h, dif_pos]

theorem decode_of_not_valid {bytes : ByteArray} (h : ¬ bytes.IsValidUTF8) : decode bytes = .error .notUtf8 := by
  simp only [decode, String.fromUTF8?, h, dif_neg, not_false_eq_true]

theorem decode_eq_ok_iff (bytes : ByteArray) (text : String) :
    decode bytes = .ok text ↔ bytes = text.toUTF8 := by
  constructor
  · intro h
    by_cases hvalid : bytes.IsValidUTF8
    · rw [decode_of_valid hvalid] at h
      cases h
      rfl
    · rw [decode_of_not_valid hvalid] at h
      contradiction
  · rintro rfl
    exact decode_of_valid text.isValidUTF8

theorem unreadable_iff (content : Except Fault ByteArray) :
    Unreadable content ↔ ∃ why, content.bind decode = .error why := by
  constructor
  · rintro (why | h)
    · exact ⟨why, rfl⟩
    · exact ⟨.notUtf8, decode_of_not_valid h⟩
  · rintro ⟨why, h⟩
    cases content with
    | error why => exact .fault why
    | ok bytes =>
        apply Unreadable.notUtf8
        intro hvalid
        rw [Except.bind, decode_of_valid hvalid] at h
        contradiction

theorem bind_decode_eq_ok_iff (content : Except Fault ByteArray) (text : String) :
    content.bind decode = .ok text ↔ content = .ok text.toUTF8 := by
  cases content with
  | error why => simp [Except.bind]
  | ok bytes => simp [Except.bind, decode_eq_ok_iff]

theorem value_isFile (p : Path) : (isFile p).value answer = (kindAt answer p == some .file) := rfl

theorem value_readText (p : Path) : (readText p).value answer = (contentAt answer p).bind decode := rfl

theorem value_inputText : inputText.value answer = (inputContent answer).bind decode := rfl

end PushAudit.Host
