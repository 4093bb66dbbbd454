import Mathlib.Data.List.Basic
import ClassMap.Text.Encoding

/-!
Plain characters are their own bytes. Whatever encoding a file is read in, the plain characters that
its bytes begin with are what its text begins with, whatever comes after them.
-/

set_option autoImplicit false
set_option relaxedAutoImplicit false

namespace ClassMap.Text

def isPlain (c : Char) : Bool :=
  c.toNat < 0x80

theorem isPlain_iff {c : Char} : isPlain c = true ↔ c.toNat < 0x80 := by
  simp [isPlain]

variable {c : Char} {start : List Char} {bytes rest : Bytes} {text : String}

/-- The bytes of plain characters, one for each. -/
def plainBytes (start : List Char) : Bytes :=
  start.map fun c ↦ UInt8.ofNat c.toNat

theorem toNat_plainByte (h : isPlain c = true) : (UInt8.ofNat c.toNat).toNat = c.toNat := by
  rw [isPlain_iff] at h
  rw [UInt8.toNat_ofNat']
  omega

theorem char_ofNat_plainByte (h : isPlain c = true) : Char.ofNat (UInt8.ofNat c.toNat).toNat = c := by
  rw [toNat_plainByte h, Char.ofNat_toNat]

theorem encode_eq_plainBytes_append {cs : List Char} (hstart : ∀ c ∈ start, isPlain c = true)
    (htext : text.toList = start ++ cs) :
    encode text = plainBytes start ++ cs.flatMap String.utf8EncodeChar := by
  have hbytes : start.flatMap String.utf8EncodeChar = plainBytes start := by
    rw [plainBytes, List.map_eq_flatMap]
    refine List.flatMap_congr fun c hc ↦ ?_
    have hplain := hstart c hc
    rw [isPlain_iff] at hplain
    have hval : c.val.toNat ≤ 0x7F := Nat.le_of_lt_succ hplain
    simp only [String.utf8EncodeChar, hval, if_true]
    rfl
  rw [encode, htext, List.flatMap_append, hbytes]

theorem nextChar_plainByte (h : isPlain c = true) (rest : Bytes) :
    nextChar (UInt8.ofNat c.toNat) rest = (some c, rest) := by
  have hlow : UInt8.ofNat c.toNat < 0x80 := by
    rw [UInt8.lt_iff_toNat_lt, toNat_plainByte h]
    exact isPlain_iff.mp h
  simp only [nextChar, sequenceOf?, hlow, if_true, followed, leadingBits, Option.map_some,
    char_ofNat_plainByte h]

theorem decodeWithin_plainBytes (hstart : ∀ c ∈ start, isPlain c = true) (steps : Nat) (rest : Bytes) :
    decodeWithin (start.length + steps) (plainBytes start ++ rest) =
      start.map some ++ decodeWithin steps rest := by
  induction start with
  | nil => simp [plainBytes]
  | cons c others ih =>
    obtain ⟨hc, hothers⟩ := List.forall_mem_cons.mp hstart
    have hstep : plainBytes (c :: others) ++ rest =
        UInt8.ofNat c.toNat :: (plainBytes others ++ rest) := rfl
    rw [hstep, List.length_cons, Nat.add_right_comm, decodeWithin, nextChar_plainByte hc]
    exact congrArg (some c :: ·) (ih hothers)

theorem mapM_id_map_some (cs : List Char) : (cs.map some).mapM id = some cs := by
  induction cs with
  | nil => rfl
  | cons c others ih => rw [List.map_cons, List.mapM_cons, ih]; rfl

/-- A text in UTF-8 begins with the plain characters that its bytes begin with. -/
theorem prefix_of_decode? (hstart : ∀ c ∈ start, isPlain c = true)
    (hdecode : decode? (plainBytes start ++ rest) = some text) : start <+: text.toList := by
  obtain ⟨cs, hcs, rfl⟩ := Option.map_eq_some_iff.mp hdecode
  have hlength : (plainBytes start ++ rest).length = start.length + rest.length := by
    rw [List.length_append, plainBytes, List.length_map]
  rw [decodeAll, hlength, decodeWithin_plainBytes hstart, List.mapM_append, mapM_id_map_some]
    at hcs
  obtain ⟨others, hothers, hcs⟩ := Option.bind_eq_some_iff.mp hcs
  obtain rfl := Option.some.inj hothers
  obtain ⟨more, -, hjoined⟩ := Option.bind_eq_some_iff.mp hcs
  obtain rfl := Option.some.inj hjoined
  rw [String.toList_ofList]
  exact List.prefix_append start more

theorem westernChar_plainByte (h : isPlain c = true) : westernChar (UInt8.ofNat c.toNat) = c := by
  have hlow : ¬ (0x80 ≤ UInt8.ofNat c.toNat) := by
    rw [UInt8.le_iff_toNat_le, toNat_plainByte h]
    exact Nat.not_le_of_lt (isPlain_iff.mp h)
  simp only [westernChar, hlow, decide_false, Bool.false_and, Bool.false_eq_true, if_false,
    char_ofNat_plainByte h]

/-- So does a text in any of the encodings of files, since a plain character begins no mark. -/
theorem prefix_of_decodeFile? (hstart : ∀ d ∈ c :: start, isPlain d = true)
    (hdecode : decodeFile? (plainBytes (c :: start) ++ rest) = some text) :
    c :: start <+: text.toList := by
  have hfirst : (UInt8.ofNat c.toNat).toNat < 0x80 := by
    rw [toNat_plainByte (hstart c List.mem_cons_self)]
    exact isPlain_iff.mp (hstart c List.mem_cons_self)
  have hbytes : plainBytes (c :: start) ++ rest =
      UInt8.ofNat c.toNat :: (plainBytes start ++ rest) := rfl
  unfold decodeFile? at hdecode
  split at hdecode
  case h_1 decoded hdecoded =>
    obtain rfl := Option.some.inj hdecode
    exact prefix_of_decode? hstart hdecoded
  case h_2 =>
    split at hdecode
    case h_1 hmark | h_2 hmark | h_3 hmark =>
      rw [(List.cons.inj (hbytes.symm.trans hmark)).1] at hfirst
      exact absurd hfirst (by decide)
    case h_4 =>
      obtain rfl := Option.some.inj hdecode
      have hplain : (plainBytes (c :: start)).map westernChar = c :: start := by
        rw [plainBytes, List.map_map]
        conv_rhs => rw [← List.map_id (c :: start)]
        exact List.map_congr_left fun d hd ↦ westernChar_plainByte (hstart d hd)
      rw [decodeWestern, List.map_append, hplain, String.toList_ofList]
      exact List.prefix_append _ _

end ClassMap.Text
