import Mathlib
import BinaryGrammar.Proofs.Element
import BinaryGrammar.Proofs.Linking

/-!
# What decoding fails for

A failure is to blame on the element whose read raised it; the reads around it only add their names
to its path. In a sound document every reference leads somewhere, padding is not read, and a length
that a field needs is there, so decoding never fails for the lack of one of them. A field whose
length is a constant does not fail for that length either, as loading has checked it: only a formula
can give a number a width that numbers do not have. The proofs go through the readers in the order
of their definitions, and say of each what it can fail with.
-/

set_option autoImplicit false

namespace BinaryGrammar

namespace Document

variable {doc : Document} {S : Nat → Prop}

/-- The length of an element is a constant. -/
def HasConstantLength (doc : Document) (i : Nat) : Prop :=
  ∃ k, doc.length i = some (.constant k)

/-- The causes for which reading an element of a sound document may fail. A constant length is
negative only as the length of a structure, with what is added to it. -/
def MayFail (doc : Document) (i : Nat) : Cause → Prop
  | .danglingReference _ => False
  | .unsupported .padding => False
  | .malformed .lengthMissing => False
  | .malformed (.integerWidth _) => ¬ doc.HasConstantLength i
  | .malformed (.floatWidth _) => ¬ doc.HasConstantLength i
  | .malformed (.countWidth _) => ¬ doc.HasConstantLength i
  | .malformed (.lengthNegative _) => doc.HasConstantLength i →
    ∃ s body, doc.structureOf? i = some (s, body) ∧ (doc.lengthOffset s).isSome
  | _ => True

/-- An element is another one, or is inside the structure that the other one opens. -/
inductive Contains (doc : Document) : Nat → Nat → Prop
  | self {i : Nat} : Contains doc i i
  | field {i s child j : Nat} {body : StructBody} (hs : doc.structureOf? i = some (s, body))
    (hchild : child ∈ body.elements) (h : Contains doc child j) : Contains doc i j

theorem struct_of_kind {i : Nat} (h : (doc.element i).kind = .struct) :
    ∃ body, (doc.element i).body = .struct body := by
  unfold Element.kind at h
  cases hbody : (doc.element i).body with
  | struct body => exact ⟨body, rfl⟩
  | _ => rw [hbody] at h; cases h

theorem structAt?_eq_some {i s : Nat} {body : StructBody} (h : doc.structAt? i = some (s, body)) :
    s = i ∧ (doc.element s).body = .struct body := by
  unfold structAt? at h
  split at h
  · rename_i b hb
    cases h
    exact ⟨rfl, hb⟩
  · cases h

theorem structAt?_of_kind {i : Nat} (h : (doc.element i).kind = .struct) :
    ∃ body, doc.structAt? i = some (i, body) := by
  obtain ⟨body, hbody⟩ := struct_of_kind h
  exact ⟨body, by unfold structAt?; rw [hbody]⟩

/-- An element has the length of the structure that it opens. -/
theorem length_structureOf {i s : Nat} {body : StructBody}
    (hs : doc.structureOf? i = some (s, body)) : doc.length i = doc.length s := by
  have hlength {t : Nat} {b : StructBody} (ht : doc.structAt? t = some (s, b)) :
      doc.derived Element.length t = doc.length s := by
    obtain ⟨rfl, hbody⟩ := structAt?_eq_some ht
    unfold length
    rw [hbody]
  unfold structureOf? at hs
  cases hbody : (doc.element i).body with
  | struct b =>
      simp only [hbody] at hs
      cases hs
      rfl
  | structRef r =>
      simp only [hbody] at hs
      split at hs
      · cases hs
      · obtain ⟨t, ht, hs⟩ := Option.bind_eq_some_iff.mp hs
        rw [← hlength hs, length, hbody]
        simp only [ht, Option.bind_some]
  | grammarRef g =>
      simp only [hbody] at hs
      split at hs
      · cases hs
      · split at hs
        · cases hs
        · obtain ⟨t, ht, hs⟩ := Option.bind_eq_some_iff.mp hs
          rw [← hlength hs, length, hbody]
          simp only [ht, Option.bind_some]
  | _ =>
      simp only [hbody] at hs
      cases hs

namespace Sound

variable (h : doc.Sound S)
include h

/-- A structure that an element opens is one of the elements that can be decoded. -/
theorem structureOf {i s : Nat} {body : StructBody} (hi : S i)
    (hs : doc.structureOf? i = some (s, body)) :
    S s ∧ (doc.element s).body = .struct body := by
  have hlinked := h.linked hi
  unfold structureOf? at hs
  cases hbody : (doc.element i).body with
  | struct b =>
      simp only [hbody] at hs
      cases hs
      exact ⟨hi, hbody⟩
  | structRef r =>
      simp only [hbody] at hs hlinked
      obtain ⟨t, ht, hSt, hkind⟩ := hlinked
      split at hs
      · cases hs
      · rw [ht, Option.bind_some] at hs
        obtain ⟨rfl, hstruct⟩ := structAt?_eq_some hs
        exact ⟨hSt, hstruct⟩
  | grammarRef g =>
      simp only [hbody] at hs
      obtain ⟨t, ht, hSt, hkind⟩ := h.start
      split at hs
      · cases hs
      · split at hs
        · cases hs
        · rw [ht, Option.bind_some] at hs
          obtain ⟨rfl, hstruct⟩ := structAt?_eq_some hs
          exact ⟨hSt, hstruct⟩
  | _ =>
      simp only [hbody] at hs
      cases hs

theorem field {i s child : Nat} {body : StructBody} (hi : S i)
    (hs : doc.structureOf? i = some (s, body)) (hchild : child ∈ body.elements) : S child := by
  obtain ⟨hSs, hbody⟩ := h.structureOf hi hs
  refine h.inside hSs ?_
  unfold Element.children
  rw [hbody]
  exact hchild

/-- What an element that can be decoded contains can be decoded. -/
theorem contains {i j : Nat} (hi : S i) (hij : doc.Contains i j) : S j := by
  induction hij with
  | self => exact hi
  | field hs hchild _ ih => exact ih (h.field hi hs hchild)

end Sound

end Document

namespace Decoder

open Reader (Fails)
open Document (MayFail)

variable {σ : Type} {d : Decoder σ} {ctx : Context} {i : Nat}

/-! ## Lengths -/

theorem evaluate_error {e : Expression} {cause : Cause} (h : d.evaluate ctx e = .error cause) :
    ∃ cause', cause = .expression e cause' := by
  unfold evaluate at h
  split at h
  · cases h
  · split at h
    · cases h
    · cases h
      exact ⟨_, rfl⟩

theorem evaluate_constant {k : Int} : d.evaluate ctx (.constant k) = .ok k := rfl

theorem bitsOf_error {n : Int} {cause : Cause} (h : d.bitsOf i n = .error cause) :
    (n < 0 ∧ cause = .malformed (.lengthNegative n)) ∨ cause = .malformed .lengthTooLarge := by
  unfold bitsOf at h
  split at h
  · rename_i hn
    cases h
    exact Or.inl ⟨hn, rfl⟩
  · split at h
    · cases h
    · cases h
      exact Or.inr rfl

theorem bitsOf_ok {n : Int} {bits : Nat} (h : d.bitsOf i n = .ok bits) :
    (bits : Int) = n * (d.document.lengthUnit i).bits := by
  unfold bitsOf at h
  split at h
  · cases h
  · rename_i hn
    split at h
    · rename_i b hb
      cases h
      unfold Word.mul? at hb
      split at hb
      · cases hb
        rw [Int.natCast_mul, Int.toNat_of_nonneg (by omega)]
      · cases hb
    · cases h

theorem wholeBytes_error {bits : Nat} {cause : Cause} (h : wholeBytes bits = .error cause) :
    cause = .malformed (.lengthNotWhole bits) := by
  unfold wholeBytes at h
  split at h
  · cases h
  · cases h
    rfl

section

variable {p : Int → Prop} (hfits : d.document.ConstantFits i p)
include hfits

/-- A constant length that fits is not negative. -/
theorem lengthBits?_mayFail {cause : Cause} (h : d.lengthBits? ctx i = .error cause) :
    d.document.MayFail i cause := by
  unfold lengthBits? at h
  cases hlength : d.document.length i with
  | none =>
      simp only [hlength] at h
      cases h
  | some e =>
      simp only [hlength] at h
      rcases Reader.except_bind_error h with h | ⟨n, hn, h⟩
      · obtain ⟨cause', rfl⟩ := evaluate_error h
        trivial
      · rcases Reader.except_bind_error h with h | ⟨bits, _, h⟩
        · rcases bitsOf_error h with ⟨hneg, rfl⟩ | rfl
          · rintro ⟨k, hk⟩
            rw [hlength] at hk
            cases hk
            rw [evaluate_constant] at hn
            cases hn
            exact absurd (hfits _ hlength).1 (by omega)
          · trivial
        · cases h

/-- A constant length that fits does so when it is evaluated. -/
theorem lengthBits?_fits {bits : Nat} (h : d.lengthBits? ctx i = .ok (some bits))
    (hconstant : d.document.HasConstantLength i) : p bits := by
  obtain ⟨k, hk⟩ := hconstant
  unfold lengthBits? at h
  simp only [hk] at h
  obtain ⟨n, hn, h⟩ := Reader.except_bind_ok h
  obtain ⟨b, hb, h⟩ := Reader.except_bind_ok h
  cases h
  rw [evaluate_constant] at hn
  cases hn
  rw [bitsOf_ok hb]
  exact (hfits k hk).2

theorem lengthBytes?_mayFail {cause : Cause} (h : d.lengthBytes? ctx i = .error cause) :
    d.document.MayFail i cause := by
  unfold lengthBytes? at h
  rcases Reader.except_bind_error h with h | ⟨length, _, h⟩
  · exact lengthBits?_mayFail hfits h
  · split at h
    · cases h
    · rcases Reader.except_bind_error h with h | ⟨bits, _, h⟩
      · rw [wholeBytes_error h]
        trivial
      · cases h

end

/-- A length that is there is there when it is evaluated. -/
theorem lengthBits?_ne_none (hsome : (d.document.length i).isSome) :
    d.lengthBits? ctx i ≠ .ok none := by
  intro h
  unfold lengthBits? at h
  cases hlength : d.document.length i with
  | none => rw [hlength] at hsome; cases hsome
  | some e =>
      simp only [hlength] at h
      obtain ⟨n, _, h⟩ := Reader.except_bind_ok h
      obtain ⟨bits, _, h⟩ := Reader.except_bind_ok h
      cases h

theorem lengthBytes?_ne_none (hsome : (d.document.length i).isSome) :
    d.lengthBytes? ctx i ≠ .ok none := by
  intro h
  unfold lengthBytes? at h
  obtain ⟨length, hlength, h⟩ := Reader.except_bind_ok h
  split at h
  · exact lengthBits?_ne_none hsome hlength
  · obtain ⟨bits, _, h⟩ := Reader.except_bind_ok h
    cases h

/-! ## Fields -/

/-- A failure that the read of an element itself raises, for a cause that the element may have. -/
def Blames (doc : Document) (i : Nat) (f : Failure) : Prop := f.path = [] ∧ doc.MayFail i f.cause

theorem required_bind_blames {α : Type} {length : Except Cause (Option Nat)} {f : Nat → Reader σ α}
    (hnone : length ≠ .ok none)
    (herror : ∀ cause, length = .error cause → d.document.MayFail i cause)
    (hf : ∀ n, length = .ok (some n) → Fails (Blames d.document i) (f n)) :
    Fails (Blames d.document i) (Reader.ofExcept (length >>= required) >>= f) := by
  refine .ofExcept_bind ?_ ?_
  · intro cause h
    rcases Reader.except_bind_error h with h | ⟨n, hn, h⟩
    · exact ⟨rfl, herror cause h⟩
    · cases n with
      | none => exact absurd hn hnone
      | some n => cases h
  · intro n h
    obtain ⟨m, hm, h⟩ := Reader.except_bind_ok h
    cases m with
    | none => cases h
    | some m => cases h; exact hf n hm

/-- What follows a length in bits may rely on it if it is constant. -/
theorem lengthBits_bind_blames {α : Type} {p : Int → Prop} {f : Nat → Reader σ α}
    (hfits : (d.document.length i).isSome ∧ d.document.ConstantFits i p)
    (hf : ∀ bits : Nat, (d.document.HasConstantLength i → p bits) →
      Fails (Blames d.document i) (f bits)) :
    Fails (Blames d.document i) (Reader.ofExcept (d.lengthBits ctx i) >>= f) :=
  required_bind_blames (lengthBits?_ne_none hfits.1) (fun _ h => lengthBits?_mayFail hfits.2 h)
    fun bits h => hf bits (lengthBits?_fits hfits.2 h)

/-- The same for a length in bytes. -/
theorem lengthBytes_bind_blames {α : Type} {p : Int → Prop} {f : Nat → Reader σ α}
    (hfits : (d.document.length i).isSome ∧ d.document.ConstantFits i p)
    (hf : ∀ n : Nat, (d.document.HasConstantLength i → p (8 * n)) →
      Fails (Blames d.document i) (f n)) :
    Fails (Blames d.document i) (Reader.ofExcept (d.lengthBytes ctx i) >>= f) := by
  refine required_bind_blames (lengthBytes?_ne_none hfits.1)
    (fun _ h => lengthBytes?_mayFail hfits.2 h) fun n h => hf n fun hconstant => ?_
  unfold lengthBytes? at h
  obtain ⟨length, hlength, h⟩ := Reader.except_bind_ok h
  cases length with
  | none => cases h
  | some bits =>
      obtain ⟨whole, hwhole, h⟩ := Reader.except_bind_ok h
      cases h
      obtain ⟨rfl, hmod⟩ := wholeBytes_ok hwhole
      have hbits : 8 * ((whole / 8 : Nat) : Int) = whole := by omega
      rw [hbits]
      exact lengthBits?_fits hfits.2 hlength hconstant

section

variable {doc : Document} {j : Nat}

theorem fetch_blames (offset count : Nat) : Fails (Blames doc j) (d.fetch offset count) where
  error := fun h => by
    unfold fetch at h
    split at h
    · cases h
    · cases h
      exact ⟨rfl, trivial⟩
    · cases h
      exact ⟨rfl, trivial⟩

theorem requireWord_blames (n : Nat) :
    Fails (Blames doc j) (Reader.requireWord n : Reader σ Unit) := .requireWord ⟨rfl, trivial⟩

theorem fetchChunks_blames (offset count : Nat) : ∀ (chunks : Nat) (got : Bytes),
    Fails (Blames doc j) (d.fetchChunks offset count chunks got)
  | 0, _ => .pure _
  | chunks + 1, got => by
      unfold fetchChunks
      split
      · refine (fetch_blames _ _).bind fun more => ?_
        split
        · exact .pure _
        · exact fetchChunks_blames offset count chunks _
      · exact .pure _

theorem ensureAligned_blames : Fails (Blames doc j) (Reader.ensureAligned : Reader σ Unit) :=
  .ensureAligned fun _ => ⟨rfl, trivial⟩

theorem finishLeaf_blames (i start : Nat) (payload : Payload) :
    Fails (Blames doc j) (finishLeaf i start payload : Reader σ Value) :=
  Fails.pos.bind fun _ => (requireWord_blames _).bind fun _ =>
    (Fails.require fun _ => ⟨rfl, trivial⟩).bind fun _ => .pure _

theorem readNothing_blames (i : Nat) : Fails (Blames doc j) (readNothing i : Reader σ Value) :=
  Fails.pos.bind fun _ => finishLeaf_blames ..

theorem take_blames (ctx : Context) (i count : Nat) :
    Fails (Blames doc j) (d.take ctx i count) := by
  unfold take
  refine ensureAligned_blames.bind fun _ => Fails.pos.bind fun pos => ?_
  have hroom : Fails (Blames doc j) (requireRoom ctx pos count : Reader σ Unit) := by
    unfold requireRoom
    split
    · exact .require fun _ => ⟨rfl, trivial⟩
    · exact .pure _
  refine hroom.bind fun _ => (fetchChunks_blames ..).bind fun bytes => ?_
  split
  · exact .throw ⟨rfl, trivial⟩
  · exact (requireWord_blames _).bind fun _ => (Fails.moveTo _).bind fun _ => .pure _

theorem takeBits_blames (ctx : Context) (count : Nat) :
    Fails (Blames doc j) (d.takeBits ctx count) := by
  unfold takeBits
  refine Fails.pos.bind fun pos => ?_
  have hbits (stop needed : Nat) :
      Fails (Blames doc j) (requireBits ctx pos stop needed : Reader σ Unit) := by
    unfold requireBits
    split
    · exact .require fun _ => ⟨rfl, trivial⟩
    · exact .pure _
  exact (requireWord_blames _).bind fun _ => (hbits _ _).bind fun _ =>
    (fetch_blames _ _).bind fun bytes => (Fails.require fun _ => ⟨rfl, trivial⟩).bind fun _ =>
      (Fails.moveTo _).bind fun _ => .pure _

/-- Integers fail for their width only where it is given by a formula. -/
theorem takeInteger_blames {bits : Nat} {big : Bool}
    (hbits : doc.HasConstantLength j → 1 ≤ bits ∧ bits ≤ 64) (ctx : Context) (i : Nat) :
    Fails (Blames doc j) (d.takeInteger ctx i bits big) := by
  unfold takeInteger
  refine (Fails.require fun hwidth => ⟨rfl, fun hconstant => hwidth (hbits hconstant)⟩).bind
    fun _ => Fails.pos.bind fun pos => ?_
  split
  · exact (take_blames ..).bind fun _ => .pure _
  · exact takeBits_blames ..

theorem scan_blames (terminator : Bytes) (offset cap : Nat) : ∀ (windows : Nat) (text : Bytes),
    Fails (Blames doc j) (d.scan terminator offset cap windows text)
  | 0, _ => .pure _
  | windows + 1, text => by
      unfold scan
      dsimp only
      refine (Fails.require fun _ => ⟨rfl, trivial⟩).bind fun _ => ?_
      split
      · exact .pure _
      · refine (fetch_blames ..).bind fun got => ?_
        split
        · exact (requireWord_blames _).bind fun _ => .pure _
        · refine (requireWord_blames _).bind fun _ => ?_
          split
          · exact .pure _
          · exact scan_blames terminator offset cap windows _

theorem takeTerminated_blames (ctx : Context) (terminator : Bytes) (max : Option Nat) :
    Fails (Blames doc j) (d.takeTerminated ctx terminator max) := by
  unfold takeTerminated
  refine Fails.pos.bind fun pos => (scan_blames ..).bind fun found => ?_
  refine (Fails.require fun _ => ⟨rfl, ?_⟩).bind fun _ => (requireWord_blames _).bind fun _ =>
    (Fails.moveTo _).bind fun _ => .pure _
  unfold nothingThere
  split
  · trivial
  · trivial

theorem requireMatch_blames (i : Nat) (accepted : Bool) (v : Value) :
    Fails (Blames doc j) (d.requireMatch i accepted v) := by
  unfold requireMatch
  split
  · exact .throw ⟨rfl, trivial⟩
  · exact .pure _

theorem finish_match_blames (i start : Nat) (payload : Payload) (accepts : Value → Bool) :
    Fails (Blames doc j) (finishLeaf i start payload >>= fun v => d.requireMatch i (accepts v) v) :=
  (finishLeaf_blames ..).bind fun _ => requireMatch_blames ..

theorem bigEndian_bind_blames {α : Type} {f : Bool → Reader σ α}
    (hf : ∀ big, Fails (Blames doc j) (f big)) :
    Fails (Blames doc j) (Reader.ofExcept (d.bigEndian i) >>= f) := by
  refine .ofExcept_bind ?_ fun big _ => hf big
  intro cause h
  unfold bigEndian at h
  split at h
  · cases h
  · cases h
  · cases h
    exact ⟨rfl, trivial⟩

theorem acceptScript_blames (ctx : Context) (i start : Nat) (out : ScriptValue) :
    Fails (Blames doc j) (d.acceptScript ctx i start out) := by
  unfold acceptScript
  split
  · exact .fail ⟨rfl, trivial⟩
  · rename_i stop _
    have hinside : Fails (Blames doc j)
        (requireInside ctx start out.length stop : Reader σ Unit) := by
      unfold requireInside
      split
      · exact .require fun _ => ⟨rfl, trivial⟩
      · exact .pure _
    have hdata (size : Option Nat) : Fails (Blames doc j)
        (requireData size (start / 8) out.length stop : Reader σ Unit) := by
      unfold requireData
      split
      · exact .require fun _ => ⟨rfl, trivial⟩
      · exact .pure _
    exact hinside.bind fun _ => .get_bind fun _ => (hdata _).bind fun _ =>
      (requireWord_blames _).bind fun _ => (Fails.moveTo _).bind fun _ => finishLeaf_blames ..

theorem runScript_blames (request : ScriptRequest) :
    Fails (Blames doc j) (d.runScript request) where
  error := fun h => by
    unfold runScript at h
    split at h
    · cases h
    · cases h
      exact ⟨rfl, trivial⟩

end

section

variable (hfits : d.document.LengthFits i)
include hfits

theorem readNumber_blames {body : NumberBody} (hbody : (d.document.element i).body = .number body) :
    Fails (Blames d.document i) (d.readNumber ctx i body) := by
  unfold Document.LengthFits at hfits
  simp only [hbody] at hfits
  refine Fails.pos.bind fun start => lengthBits_bind_blames hfits fun bits hbits =>
    bigEndian_bind_blames fun big => ?_
  have htake : Fails (Blames d.document i) (d.takeNumber ctx i bits big) := by
    unfold takeNumber
    cases htype : d.document.numberType i with
    | integer =>
        simp only [htype] at hbits ⊢
        exact (takeInteger_blames (fun h => by have := hbits h; omega) ctx i).bind fun _ => .pure _
    | float =>
        simp only [htype] at hbits ⊢
        refine (Fails.require fun hwidth => ⟨rfl, fun h => hwidth ?_⟩).bind fun _ =>
          (take_blames ..).bind fun _ => .pure _
        have := hbits h
        omega
  exact htake.bind fun payload => finish_match_blames ..

theorem readOffset_blames {body : OffsetBody} (hbody : (d.document.element i).body = .offset body) :
    Fails (Blames d.document i) (d.readOffset ctx i) := by
  unfold Document.LengthFits at hfits
  simp only [hbody] at hfits
  refine Fails.pos.bind fun start => lengthBits_bind_blames hfits fun bits hbits =>
    bigEndian_bind_blames fun big => ?_
  exact (takeInteger_blames (fun h => by have := hbits h; omega) ctx i).bind fun _ =>
    finishLeaf_blames ..

theorem readBinary_blames {body : BinaryBody} (hbody : (d.document.element i).body = .binary body) :
    Fails (Blames d.document i) (d.readBinary ctx i body) := by
  unfold Document.LengthFits at hfits
  simp only [hbody] at hfits
  exact Fails.pos.bind fun start => lengthBytes_bind_blames hfits fun length _ =>
    (take_blames ..).bind fun bytes => finish_match_blames ..

theorem takeString_blames {body : StringBody} (hbody : (d.document.element i).body = .string body)
    (encoding : Option Text.Encoding) :
    Fails (Blames d.document i) (d.takeString ctx i body encoding) := by
  unfold Document.LengthFits at hfits
  simp only [hbody] at hfits
  unfold takeString
  have hdelimited {p : Int → Prop} (hfits : d.document.ConstantFits i p) (terminator : Bytes) :
      Fails (Blames d.document i) (d.takeDelimited ctx i terminator) :=
    .ofExcept_bind (fun _ h => ⟨rfl, lengthBytes?_mayFail hfits h⟩) fun _ _ =>
      takeTerminated_blames ..
  cases htype : d.document.stringType i with
  | fixedLength =>
      simp only [htype] at hfits ⊢
      exact lengthBytes_bind_blames hfits fun length _ =>
        (take_blames ..).bind fun _ => .pure _
  | pascal =>
      simp only [htype] at hfits ⊢
      refine lengthBytes_bind_blames hfits fun width hwidth => ?_
      refine (Fails.require fun hrange => ⟨rfl, fun h => hrange ?_⟩).bind fun _ =>
        bigEndian_bind_blames fun big => (take_blames ..).bind fun _ => take_blames ..
      have := hwidth h
      omega
  | zeroTerminated =>
      simp only [htype] at hfits ⊢
      exact hdelimited hfits _
  | delimiterTerminated =>
      simp only [htype] at hfits ⊢
      exact hdelimited hfits _

theorem readString_blames {body : StringBody} (hbody : (d.document.element i).body = .string body) :
    Fails (Blames d.document i) (d.readString ctx i body) := by
  unfold readString
  refine ensureAligned_blames.bind fun _ => Fails.pos.bind fun start =>
    (takeString_blames hfits hbody _).bind fun bytes => .ofExcept_bind ?_ fun _ _ =>
      finish_match_blames ..
  intro cause h
  unfold decodeText at h
  split at h
  · cases h
    exact ⟨rfl, trivial⟩
  · split at h
    · cases h
    · cases h
      exact ⟨rfl, trivial⟩

theorem readCustom_blames {body : CustomBody} (hbody : (d.document.element i).body = .custom body)
    (hlinked : (body.script.bind (·.target)).isSome) :
    Fails (Blames d.document i) (d.readCustom ctx i body) := by
  unfold Document.LengthFits at hfits
  simp only [hbody] at hfits
  unfold readCustom
  refine ensureAligned_blames.bind fun _ => ?_
  split
  · rename_i hnone
    rw [hnone] at hlinked
    cases hlinked
  · exact Fails.pos.bind fun start =>
      .ofExcept_bind (fun _ h => ⟨rfl, lengthBytes?_mayFail hfits h⟩) fun _ _ =>
        (runScript_blames _).bind fun _ => acceptScript_blames ..

end

/-! ## Structures -/

/-- A failure that comes, as it is but for what was decoded, from the read of one of some
elements. -/
def Passes (read : ElementReader σ) (children : List Nat) (f : Failure) : Prop :=
  ∃ child ∈ children, ∃ ctx c f' c',
    read ctx child c = .error f' c' ∧ f'.path = f.path ∧ f'.cause = f.cause

theorem total_mayFail {doc : Document} {j : Nat} {length : Int} {cause : Cause}
    (h : d.total ctx i length = .error cause) : doc.MayFail j cause := by
  unfold total at h
  split at h
  · cases h
  · split at h
    · rename_i cause' hextra
      cases h
      obtain ⟨cause', rfl⟩ := evaluate_error hextra
      trivial
    · split at h
      · cases h
      · cases h
        trivial

section

variable {label : Nat} {body : StructBody} {p : Int → Prop}
  (hs : d.document.structureOf? label = some (i, body)) (hfits : d.document.ConstantFits i p)
include hs hfits

theorem extentBits?_mayFail {cause : Cause} (h : d.extentBits? ctx i = .error cause) :
    d.document.MayFail label cause := by
  unfold extentBits? at h
  cases hlength : d.document.length i with
  | none =>
      simp only [hlength] at h
      cases h
  | some e =>
      simp only [hlength] at h
      rcases Reader.except_bind_error h with h | ⟨length, hvalue, h⟩
      · obtain ⟨cause', rfl⟩ := evaluate_error h
        trivial
      · rcases Reader.except_bind_error h with h | ⟨sum, hsum, h⟩
        · exact total_mayFail h
        · rcases Reader.except_bind_error h with h | ⟨bits, _, h⟩
          · rcases bitsOf_error h with ⟨hneg, rfl⟩ | rfl
            · rintro ⟨k, hk⟩
              refine ⟨i, body, hs, ?_⟩
              rw [Document.length_structureOf hs, hlength] at hk
              cases hk
              rw [evaluate_constant] at hvalue
              cases hvalue
              -- with nothing to add the sum would be the constant
              cases hoffset : d.document.lengthOffset i with
              | some extra => rfl
              | none =>
                  simp only [total, hoffset] at hsum
                  cases hsum
                  exact absurd (hfits _ hlength).1 (by omega)
            · trivial
          · rcases Reader.except_bind_error h with h | ⟨whole, _, h⟩
            · rw [wholeBytes_error h]
              trivial
            · cases h

theorem settle_blames (outer : Context) (start : Nat) (last : Bool) :
    Fails (Blames d.document label) (d.settle outer i start last) where
  error := fun h => by
    unfold settle at h
    split at h
    · split at h
      · cases h
      · split at h
        · cases h
        · rename_i cause hstop
          cases h
          unfold stopOf at hstop
          split at hstop
          · cases hstop
            exact ⟨rfl, trivial⟩
          · split at hstop
            · cases hstop
              unfold Cause.through
              split
              · exact ⟨rfl, trivial⟩
              · exact ⟨rfl, trivial⟩
            · cases hstop
      · rename_i cause hextent
        split at h
        · cases h
        · cases h
          exact ⟨rfl, extentBits?_mayFail hs hfits hextent⟩
    · cases h

variable {read : ElementReader σ} {children : List Nat} {outer : Context} {start : Nat}

/-- An attempt at an instance fails with the instance or when the length is settled after it. -/
theorem attempt_blames {child : Nat} (hchild : child ∈ children) (enough : Bool) :
    Fails (fun f => Blames d.document label f ∨ Passes read children f)
      (d.attempt read outer i start child enough) where
  error := fun {p p' f} h => by
    unfold attempt at h
    dsimp only at h
    split at h
    · split at h
      · cases h
      · rename_i f₁ p₁ hsettle
        cases h
        exact Or.inl ((settle_blames hs hfits outer start false).error hsettle)
    · rename_i f₁ c₁ herror
      split at h
      · cases h
      · cases h
        exact Or.inr ⟨child, hchild, _, _, _, _, herror, rfl, rfl⟩

theorem readInstances_blames {child : Nat} (hchild : child ∈ children) (least : Int) :
    ∀ allowed count : Nat, Fails (fun f => Blames d.document label f ∨ Passes read children f)
      (d.readInstances read outer i start child least allowed count)
  | 0, _ => .pure _
  | allowed + 1, count => by
      refine ⟨fun {p p' f} h => ?_⟩
      unfold readInstances at h
      split at h
      · cases h
      · split at h
        · cases h
        · split at h
          · exact (readInstances_blames hchild least allowed (count + 1)).error h
          · cases h
            exact Or.inl ⟨rfl, trivial⟩
        · rename_i f₁ p₁ herror
          cases h
          exact (attempt_blames hs hfits hchild _).error herror

theorem readElements_blames : ∀ rest : List Nat, (∀ child ∈ rest, child ∈ children) →
    Fails (fun f => Blames d.document label f ∨ Passes read children f)
      (d.readElements read outer i start rest)
  | [], _ => .pure _
  | child :: rest, hrest => by
      have hbound (e : Expression) : Fails (fun f => Blames d.document label f ∨
          Passes read children f) (d.bound outer e) := by
        refine ⟨fun {p p' f} h => ?_⟩
        unfold bound at h
        split at h
        · cases h
        · rename_i cause heval
          cases h
          obtain ⟨cause', rfl⟩ := evaluate_error heval
          exact Or.inl ⟨rfl, trivial⟩
      unfold readElements
      refine Fails.get_bind fun p => ?_
      split
      · exact .pure _
      · exact (hbound _).bind fun _ => (hbound _).bind fun _ =>
          (readInstances_blames hs hfits (hrest child List.mem_cons_self) _ _ _).bind fun _ =>
            readElements_blames rest fun c hc => hrest c (List.mem_cons_of_mem _ hc)

theorem readFields_blames : Fails (fun f => Blames d.document label f ∨ Passes read children f)
    (d.readFields read outer i start children) :=
  ((settle_blames hs hfits ..).imp fun _ h => Or.inl h).bind fun _ =>
    (readElements_blames hs hfits children fun _ h => h).bind fun _ =>
      (settle_blames hs hfits ..).imp fun _ h => Or.inl h

omit hs hfits

theorem finish_blames (extent : Extent) :
    Fails (Blames d.document label) (d.finish outer extent) := by
  have hopen : Fails (Blames d.document label)
      (Reader.ensureAligned >>= fun _ => pure [] : Reader σ (List Value)) :=
    ensureAligned_blames.bind fun _ => .pure _
  cases extent with
  | pending => exact hopen
  | unbounded => exact hopen
  | fixed stop =>
      refine Fails.pos.bind fun pos => ?_
      have houter :
          Fails (Blames d.document label) (requireOuter outer pos stop : Reader σ Unit) := by
        unfold requireOuter
        split
        · exact .require fun _ => ⟨rfl, trivial⟩
        · exact .pure _
      have hstop : Fails (Blames d.document label) (d.requireStop pos stop) := by
        unfold requireStop
        refine Fails.bind (.get_bind fun _ => .pure _) fun size => ?_
        split
        · exact .require fun _ => ⟨rfl, trivial⟩
        · refine (requireWord_blames _).bind fun _ => ?_
          split
          · exact (Fails.require fun _ => ⟨rfl, trivial⟩).bind fun _ =>
              (fetch_blames _ _).bind fun _ => .require fun _ => ⟨rfl, trivial⟩
          · exact .pure _
      exact (requireWord_blames _).bind fun _ => houter.bind fun _ => hstop.bind fun _ =>
        (requireWord_blames _).bind fun _ => (Fails.moveTo _).bind fun _ => .pure _

theorem finishStructure_blames (start : Nat) (vs : List Value) :
    Fails (Blames d.document label) (finishStructure label start vs : Reader σ Value) :=
  Fails.pos.bind fun _ => (requireWord_blames _).bind fun _ => .pure _

include hs hfits

/-- A structure fails itself or with one of its elements. -/
theorem readStructure_blames :
    Fails (fun f => Blames d.document label f ∨ Passes read body.elements f)
      (d.readStructure read outer label i body) := by
  unfold readStructure
  refine (Fails.require fun _ => Or.inl ⟨rfl, trivial⟩).bind fun _ =>
    (ensureAligned_blames.imp fun _ h => Or.inl h).bind fun _ => Fails.pos.bind fun start => ?_
  refine ⟨fun {c c' f} h => ?_⟩
  dsimp only at h
  -- what has been decoded is added to a failure, which stays the same unless that overflows
  have hkept (pos : Nat) (vs : List Value) (f₁ : Failure)
      (h₁ : Blames d.document label f₁ ∨ Passes read body.elements f₁) :
      Blames d.document label (inStructure label start pos vs f₁) ∨
        Passes read body.elements (inStructure label start pos vs f₁) := by
    rcases inStructure_cases label start pos vs f₁ with hover | ⟨v, hsame⟩
    · rw [hover]
      exact Or.inl ⟨rfl, trivial⟩
    · rw [hsame]
      exact h₁
  split at h
  · rename_i f₁ p herror
    cases h
    exact hkept _ _ _ ((readFields_blames hs hfits).error herror)
  · split at h
    · exact Or.inl ((finishStructure_blames ..).error h)
    · rename_i f₁ c₁ herror
      cases h
      exact hkept _ _ _ (Or.inl ((finish_blames _).error herror))

end

/-! ## Elements -/

theorem readTarget_of_struct {read : ElementReader σ} {s : Nat} {body : StructBody}
    {target : Option Nat} {attr : String}
    (h : target.bind d.document.structAt? = some (s, body)) :
    d.readTarget read ctx i target attr = d.readStructure read ctx i s body := by
  obtain ⟨t, rfl, h⟩ := Option.bind_eq_some_iff.mp h
  obtain ⟨rfl, hbody⟩ := Document.structAt?_eq_some h
  unfold readTarget
  simp only [hbody]

/-- An element that opens a structure reads it. -/
theorem readBody_of_structure {read : ElementReader σ} {s : Nat} {body : StructBody}
    (h : d.document.structureOf? i = some (s, body)) :
    d.readBody read ctx i = d.readStructure read ctx i s body := by
  unfold Document.structureOf? at h
  unfold readBody
  cases hbody : (d.document.element i).body with
  | struct b =>
      simp only [hbody] at h ⊢
      cases h
      rfl
  | structRef r =>
      simp only [hbody] at h ⊢
      split at h
      · cases h
      · rename_i hdis
        rw [if_neg hdis]
        exact readTarget_of_struct h
  | grammarRef g =>
      simp only [hbody] at h ⊢
      split at h
      · cases h
      · rename_i hdis
        split at h
        · cases h
        · rename_i hlink
          rw [if_neg hdis, if_neg hlink]
          exact readTarget_of_struct h
  | _ =>
      simp only [hbody] at h
      cases h

section

variable {S : Nat → Prop} (hsound : d.document.Sound S)
include hsound

/-- A field fails itself. References that open no structure are disabled. -/
theorem readBody_field_blames {read : ElementReader σ} (hi : S i)
    (hnone : d.document.structureOf? i = none) :
    Fails (Blames d.document i) (d.readBody read ctx i) := by
  have hlinked := hsound.linked hi
  have hfits := hsound.fits hi
  unfold Document.structureOf? at hnone
  unfold readBody
  cases hbody : (d.document.element i).body with
  | struct b =>
      simp only [hbody] at hnone
      cases hnone
  | number b => exact readNumber_blames hfits hbody
  | string b => exact readString_blames hfits hbody
  | binary b => exact readBinary_blames hfits hbody
  | offset b => exact readOffset_blames hfits hbody
  | custom b =>
      rw [hbody] at hlinked
      exact readCustom_blames hfits hbody hlinked
  | structRef r =>
      simp only [hbody] at hnone hlinked ⊢
      split
      · exact readNothing_blames i
      · rename_i hdis
        obtain ⟨t, ht, _, hkind⟩ := hlinked
        obtain ⟨body, hstruct⟩ := Document.structAt?_of_kind hkind
        rw [if_neg hdis, ht, Option.bind_some, hstruct] at hnone
        cases hnone
  | grammarRef g =>
      simp only [hbody] at hnone hlinked ⊢
      split
      · exact readNothing_blames i
      · rename_i hdis
        obtain ⟨t, ht, _, hkind⟩ := hsound.start
        obtain ⟨body, hstruct⟩ := Document.structAt?_of_kind hkind
        have hfound : (g.grammar.bind (·.target)).isSome := hlinked
        have hlink : ¬ (g.grammar.bind (·.target)).isNone := by
          intro hlink
          rw [Option.isNone_iff_eq_none.mp hlink] at hfound
          cases hfound
        rw [if_neg hdis, if_neg hlink, ht, Option.bind_some, hstruct] at hnone
        cases hnone
  | script s => exact readNothing_blames i
  | padding => exact absurd (by unfold Element.kind; rw [hbody]; rfl) (hsound.kind hi)

/-- An element fails itself or with an element of the structure that it opens. -/
theorem readBody_blames {read : ElementReader σ} (hi : S i) :
    Fails (fun f => Blames d.document i f ∨
      ∃ s body, d.document.structureOf? i = some (s, body) ∧ Passes read body.elements f)
      (d.readBody read ctx i) := by
  cases hs : d.document.structureOf? i with
  | none => exact (readBody_field_blames hsound hi hs).imp fun _ h => Or.inl h
  | some sb =>
      obtain ⟨s, body⟩ := sb
      obtain ⟨hSs, hbody⟩ := hsound.structureOf hi hs
      have hfits := hsound.fits hSs
      unfold Document.LengthFits at hfits
      simp only [hbody] at hfits
      rw [readBody_of_structure hs]
      exact (readStructure_blames hs hfits).imp fun _ h =>
        h.imp_right fun hpasses => ⟨s, body, rfl, hpasses⟩

end

/-- Reading an element fails for a cause that the read itself raises. -/
def FailsAt (d : Decoder σ) (j : Nat) (cause : Cause) : Prop :=
  ∃ levels ctx c f c', d.readElement levels ctx j c = .error f c' ∧
    f.path = [(d.document.element j).name] ∧ f.cause = cause

section

variable {S : Nat → Prop} (hsound : d.document.Sound S)
include hsound

/-- **A read fails with one of the elements that it contains.** The names of the elements around
that one stand before its own. -/
theorem readElement_blames : ∀ (levels : Nat) {ctx : Context} {i : Nat} {c c' : Cursor σ}
    {f : Failure}, S i → d.readElement levels ctx i c = .error f c' →
    ∃ j before, d.document.Contains i j ∧ f.path = before ++ [(d.document.element j).name] ∧
      d.FailsAt j f.cause ∧ d.document.MayFail j f.cause ∧ (before = [] → j = i)
  | 0, ctx, i, c, c', f, _, h => by
      have hf : f.path = [(d.document.element i).name] ∧ f.cause = .tooDeep depthLimit := by
        cases h
        exact ⟨rfl, rfl⟩
      refine ⟨i, [], .self, hf.1, ⟨_, _, _, _, _, h, hf.1, rfl⟩, ?_, fun _ => rfl⟩
      rw [hf.2]
      trivial
  | levels + 1, ctx, i, c, c', f, hi, h => by
      have hread := h
      unfold readElement at h
      split at h
      · cases h
      · rename_i f₁ c₁ herror
        cases h
        rcases (readBody_blames hsound hi).error herror with
          ⟨hpath, hmay⟩ | ⟨s, body, hs, child, hchild, ctx₂, c₂, f₂, c₂', hread₂, hpath, hcause⟩
        -- the read of the element itself fails
        · have hnamed : (f₁.within (d.document.element i).name).path =
              [(d.document.element i).name] := by
            unfold Failure.within
            rw [hpath]
          exact ⟨i, [], .self, hnamed, ⟨_, _, _, _, _, hread, hnamed, rfl⟩, hmay, fun _ => rfl⟩
        -- the read of an element inside fails, with less levels left
        · obtain ⟨j, before, hcontains, hpath₂, hfails, hmay, _⟩ :=
            readElement_blames levels (hsound.field hi hs hchild) hread₂
          rw [hcause] at hfails hmay
          refine ⟨j, (d.document.element i).name :: before, .field hs hchild hcontains, ?_,
            hfails, hmay, nofun⟩
          unfold Failure.within
          rw [← hpath, hpath₂, List.cons_append]

/-- A read that fails itself does so for a cause that the element may have. -/
theorem FailsAt.mayFail {j : Nat} {cause : Cause} (hj : S j) (h : d.FailsAt j cause) :
    d.document.MayFail j cause := by
  obtain ⟨levels, ctx, c, f, c', hread, hpath, rfl⟩ := h
  obtain ⟨k, before, _, hpath', _, hmay, hself⟩ := readElement_blames hsound levels hj hread
  have hlength := congrArg List.length (hpath.symm.trans hpath')
  rw [List.length_append, List.length_singleton, List.length_singleton] at hlength
  rwa [hself (List.eq_nil_of_length_eq_zero (by omega))] at hmay

end

/-- **Nothing that loading checks is missed when data are decoded.** Take a document about which
nothing was reported, and decode any source from any place. If that fails, then not for a reference
that leads nowhere, padding that is read, or a length that is missing; and it fails with an element
of the start structure, the last one on its path. No such element whose length is a constant fails
for the width of an integer, of a floating-point number or of the number before a string, and only
one that opens a structure to whose length something is added fails for a negative length. -/
theorem decode_blames {r : Record.Document} (hr : (Document.load r).notes = [])
    (hd : d.document = (Document.load r).value) :
    ∃ start, d.document.start = some start ∧
      (∀ c f c', d.decode c = .error f c' →
        (∀ attr, f.cause ≠ .danglingReference attr) ∧ f.cause ≠ .unsupported .padding ∧
        f.cause ≠ .malformed .lengthMissing ∧
        ∃ j before, d.document.Contains start j ∧
          f.path = before ++ [(d.document.element j).name] ∧ d.FailsAt j f.cause) ∧
      ∀ j cause, d.document.Contains start j → d.FailsAt j cause →
        d.document.HasConstantLength j →
        (∀ bits, cause ≠ .malformed (.integerWidth bits)) ∧
        (∀ bits, cause ≠ .malformed (.floatWidth bits)) ∧
        (∀ n, cause ≠ .malformed (.countWidth n)) ∧
        ∀ n, cause = .malformed (.lengthNegative n) →
          ∃ s body, d.document.structureOf? j = some (s, body) ∧
            (d.document.lengthOffset s).isSome := by
  obtain ⟨S, hsound⟩ := Document.load_sound hr
  rw [← hd] at hsound
  obtain ⟨start, hstart, hS, _⟩ := hsound.start
  refine ⟨start, hstart, ?_, ?_⟩
  · intro c f c' h
    unfold decode at h
    rw [hstart] at h
    obtain ⟨j, before, hcontains, hpath, hfails, hmay, _⟩ := readElement_blames hsound _ hS h
    refine ⟨?_, ?_, ?_, j, before, hcontains, hpath, hfails⟩
    · rintro attr hcause
      rw [hcause] at hmay
      exact hmay
    · intro hcause
      rw [hcause] at hmay
      exact hmay
    · intro hcause
      rw [hcause] at hmay
      exact hmay
  · intro j cause hcontains hfails hconstant
    have hmay := hfails.mayFail hsound (hsound.contains hS hcontains)
    refine ⟨?_, ?_, ?_, ?_⟩
    · rintro bits rfl
      exact hmay hconstant
    · rintro bits rfl
      exact hmay hconstant
    · rintro n rfl
      exact hmay hconstant
    · rintro n rfl
      exact hmay hconstant

end Decoder

/-! ## A number that is too wide

A file is, by reference, a byte and a number whose length is a formula. Nothing is reported about
the grammar, as the formula is not evaluated before data are decoded. -/

/-- The grammar as it is written. -/
def Record.Document.wide : Record.Document where
  grammar :=
    { start := "id:1"
      elements :=
        [.struct { id := 1 } {} [.structRef {} { target := "id:2" }],
          .struct { id := 2 } {} [.number {} { length := "1" }, .number {} { length := "3 * 3" }]] }

/-- The grammar before it is linked. -/
def Document.wide : Document :=
  .ofParts "" { start := some { reference := .id 1 }, elements := [1, 4] }
    #[{ body := .structRef { target := some { reference := .id 2 } } },
      { ident := { id := 1 }, body := .struct { elements := [0] } },
      { body := .number { length := some (.constant 1) } },
      { body := .number { length := some (.formula "3 * 3") } },
      { ident := { id := 2 }, body := .struct { elements := [2, 3] } }] #[]

theorem Document.load_wide : (Document.load .wide).value = Document.wide.update.value ∧
    (Document.load .wide).notes = Document.wide.update.notes := by
  have hconstant : Expression.parse? "1" = some (.constant 1) := by decide +kernel
  have hformula : Expression.parse? "3 * 3" = some (.formula "3 * 3") := by decide +kernel
  have hfile {α : Type} :
      (Link.parse? "id:1" : Option (Link α)) = some { reference := .id 1 } := rfl
  have hbody {α : Type} :
      (Link.parse? "id:2" : Option (Link α)) = some { reference := .id 2 } := rfl
  have hmade : Document.ofRecord .wide = { value := .wide, notes := [] } := by
    unfold Document.ofRecord Record.Document.wide
    simp only [Build.addElements, Build.addElement, Build.struct, Build.number, Build.structRef,
      hconstant, hformula, hfile, hbody]
    rfl
  unfold load
  rw [Noted.value_bind, Noted.notes_bind, hmade]
  exact ⟨rfl, List.nil_append _⟩

/-- A decoder of files in memory. -/
def Decoder.wide : Decoder Bytes := { document := (Document.load .wide).value, source := .plain }

/-- The number that is too wide has no constant length. -/
theorem Decoder.decode_blames_wide : (Document.load .wide).notes = [] ∧ ∃ start f c' j before,
    wide.decode { source := #[5] } = .error f c' ∧ f.cause = .malformed (.integerWidth 72) ∧
    wide.document.start = some start ∧ wide.document.Contains start j ∧
    f.path = before ++ [(wide.document.element j).name] ∧ ¬ wide.document.HasConstantLength j := by
  have hnotes : (Document.load .wide).notes = [] := by
    rw [Document.load_wide.2]
    cbv
  have hcause : (Reader.failure? wide.decode { source := #[5] }).map (·.cause) =
      some (.malformed (.integerWidth 72)) := by
    unfold wide
    rw [Document.load_wide.1]
    cbv
  have hdocument : wide.document = (Document.load .wide).value := by simp only [wide]
  obtain ⟨start, hstart, hfails, hconstant⟩ := decode_blames hnotes hdocument
  obtain ⟨f, hf, hcause⟩ := Option.map_eq_some_iff.mp hcause
  obtain ⟨c', h⟩ := Reader.error_of_failure? hf
  obtain ⟨_, _, _, j, before, hcontains, hpath, hat⟩ := hfails _ f c' h
  rw [hcause] at hat
  exact ⟨hnotes, start, f, c', j, before, h, hcause, hstart, hcontains, hpath,
    fun hlength => (hconstant j _ hcontains hat hlength).1 72 rfl⟩

end BinaryGrammar
