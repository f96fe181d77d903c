import BinaryGrammar.Proofs.Parallel
import BinaryGrammar.Proofs.Payload

/-!
# What decoding does not depend on

What a decoder without scripts gives depends on the document and on the bytes that it reads, and on
nothing else. The bytes around a structure of fixed length do not matter to it. It does not matter
how a source hands out its bytes: few at a time, with interruptions, with or without telling their
number. And it does not matter where the data begin: further on all places are further on, unless
one of them becomes too large.

Each of these is a pairing of two sources, and the results are those of the decoders side by side.
-/

set_option autoImplicit false

namespace BinaryGrammar

/-! ## Sources that serve their data -/

namespace ByteSource

variable {σ : Type}

/-- In the states `I`, which are never left, a source hands out its data: what it gives is copied
from them, it gives nothing only where they end or if nothing is asked for, and it does not fail. It
may give less than it is asked for, and be interrupted. -/
structure Serves (src : ByteSource σ) (data : Bytes) (I : σ → Prop) : Prop where
  stays : src.Stays I
  copy : ∀ {s s' : σ} {offset count : Nat} {bytes : Bytes}, I s →
    src.readAt s offset count = (.bytes bytes, s') → CopyAt data offset bytes
  ends : ∀ {s s' : σ} {offset count : Nat} {bytes : Bytes}, I s →
    src.readAt s offset count = (.bytes bytes, s') → bytes.size = 0 →
    count = 0 ∨ data.size ≤ offset
  never_fails : ∀ {s s' : σ} {offset count : Nat} {reason : String}, I s →
    src.readAt s offset count ≠ (.failed reason, s')

theorem slice_ends {data : Bytes} {offset count : Nat}
    (h : (Bytes.slice data offset count).size = 0) : count = 0 ∨ data.size ≤ offset := by
  unfold Bytes.slice at h
  rw [Array.size_extract] at h
  omega

theorem plain_serves (data : Bytes) : plain.Serves data (· = data) where
  stays := fun hs hread => by cases hread; exact hs
  copy := fun hs hread => by
    cases hread
    rw [hs]
    exact slice_copyAt ..
  ends := fun hs hread hnone => by
    cases hread
    rw [hs] at hnone
    exact slice_ends hnone
  never_fails := fun _ => nofun

theorem unsized_serves (data : Bytes) : unsized.Serves data (· = data) :=
  have h := plain_serves data
  ⟨h.stays, h.copy, h.ends, h.never_fails⟩

/-- Interruptions and small pieces do no harm. -/
theorem choppy_serves (data : Bytes) : choppy.Serves data (·.1 = data) where
  stays := fun hs hread => by
    unfold choppy at hread
    dsimp only at hread
    split at hread
    · cases hread; exact hs
    · cases hread; exact hs
  copy := fun hs hread => by
    unfold choppy at hread
    dsimp only at hread
    split at hread
    · cases hread
    · cases hread
      rw [hs]
      exact slice_copyAt ..
  ends := fun hs hread hnone => by
    unfold choppy at hread
    dsimp only at hread
    split at hread
    · cases hread
    · cases hread
      rw [hs] at hnone
      rcases slice_ends hnone with hcount | hend
      · exact Or.inl (by omega)
      · exact Or.inr hend
  never_fails := fun _ hread => by
    unfold choppy at hread
    dsimp only at hread
    split at hread
    · cases hread
    · cases hread

/-- Bytes copied from the data are all that are there if they are enough or reach the end. -/
theorem CopyAt.eq_slice {data got : Bytes} {offset count : Nat} (h : CopyAt data offset got)
    (hle : got.size ≤ count) (hall : got.size = count ∨ data.size ≤ offset + got.size) :
    got = Bytes.slice data offset count := by
  unfold CopyAt Bytes.slice at h
  unfold Bytes.slice
  refine h.trans (Array.ext ?_ fun k _ _ => ?_)
  · rw [Array.size_extract, Array.size_extract]
    omega
  · rw [Array.getElem_extract, Array.getElem_extract]

/-- However a source hands out its data, in the end they are all there. -/
theorem Serves.readFull {src : ByteSource σ} {data : Bytes} {I : σ → Prop}
    (h : src.Serves data I) {offset : Nat} (count : Nat) (hoffset : offset < Word.modulus)
    (hword : data.size < Word.modulus ∨ offset + count < Word.modulus) {s : σ} (hs : I s) :
    ∃ s', src.readFull offset count s = (.ok (Bytes.slice data offset count), s') ∧ I s' := by
  have hfrom (got : Bytes) (s : σ) (hs : I s) (hgot : CopyAt data offset got)
      (hle : got.size ≤ count) : ∃ s',
      src.readFullFrom offset count got s = (.ok (Bytes.slice data offset count), s') ∧ I s' := by
    fun_induction ByteSource.readFullFrom src offset count got s with
    | case1 got s hlt hplace more s₁ hread hmore =>
        refine ⟨s₁, ?_, h.stays hs hread⟩
        rw [← hgot.eq_slice hle]
        rcases h.ends hs hread hmore with hcount | hend
        · omega
        · exact Or.inr hend
    | case2 got s hlt hplace more s₁ hread hmore ih =>
        -- the bytes so far are copied from the data, and so are the next ones
        have hsize := src.readAt_size_le hread
        exact ih (h.stays hs hread) (hgot.append (h.copy hs hread))
          (by rw [Array.size_append]; omega)
    | case3 got s hlt hplace reason s₁ hread ih => exact ih (h.stays hs hread) hgot hle
    | case4 got s hlt hplace reason s₁ hread => exact absurd hread (h.never_fails hs)
    | case5 got s hlt hover =>
        rcases hgot.insideAt with hnone | hin
        · omega
        · omega
    | case6 got s hge =>
        refine ⟨s, ?_, hs⟩
        rw [← hgot.eq_slice hle (Or.inl (by omega))]
  refine hfrom #[] s hs ?_ (Nat.zero_le _)
  unfold CopyAt Bytes.slice
  exact (Array.extract_empty_of_stop_le_start (by simp)).symm

end ByteSource

/-! ## Outcomes -/

/-- What a reader gives, apart from the state that it leaves behind. -/
def Reader.outcome {σ α : Type} (x : Reader σ α) (c : Cursor σ) : Except Failure α :=
  match x c with
  | .ok a _ => .ok a
  | .error f _ => .error f

namespace Decoder

variable {σ : Type}

/-- Go to a byte offset and decode from there. -/
def decodeAt (d : Decoder σ) (offset : Nat) : Reader σ Value := do
  seek offset
  d.decode

/-- A decoder without scripts. -/
def scriptless (doc : Document) (evaluator : Evaluator) (source : ByteSource σ) : Decoder σ where
  document := doc
  source
  evaluator

end Decoder

namespace Pairing

variable {σ₁ σ₂ : Type} {P : Pairing σ₁ σ₂} {c₁ : Cursor σ₁} {c₂ : Cursor σ₂}
  {x : Reader σ₁ Value} {y : Reader σ₂ Value}

/-- Failures that match differ in their places only, unless the second source does not tell its
size. -/
theorem Matching.eq_moved {own : Prop} {f g : Failure} (h : P.Matching own f g)
    (htold : P.accord ≠ .untold) : g = f.moved P.shift := by
  have hcause := h.cause.resolve_right fun hexcused => htold hexcused.1
  obtain ⟨cause, path, salvage⟩ := g
  unfold Failure.moved
  rw [← hcause, ← h.path, ← h.salvage]

/-- Readers side by side give the same, with all places moved. -/
theorem outcome_moved (h : P.Reads 0 (Value.moved P.shift) False (x c₁) (y c₂))
    (htold : P.accord ≠ .untold) :
    (P.shift ≠ 0 ∧ ∃ g, y.outcome c₂ = .error g ∧ g.cause = .malformed .lengthTooLarge) ∨
      y.outcome c₂ =
        ((x.outcome c₁).map (Value.moved P.shift)).mapError (Failure.moved P.shift) := by
  unfold Reader.outcome
  generalize x c₁ = r₁ at h ⊢
  generalize y c₂ = r₂ at h ⊢
  cases h with
  | ok v _ => exact Or.inr rfl
  | error hfail _ => exact Or.inr (congrArg Except.error (hfail.eq_moved htold))
  | tooLarge hshift hcause => exact Or.inl ⟨hshift, _, rfl, hcause⟩

/-- If nothing is moved they give the same. -/
theorem outcome_eq (h : P.Reads 0 (Value.moved P.shift) False (x c₁) (y c₂))
    (htold : P.accord ≠ .untold) (hshift : P.shift = 0) : y.outcome c₂ = x.outcome c₁ := by
  rcases outcome_moved h htold with ⟨hmoved, _⟩ | hsame
  · exact absurd hshift hmoved
  · rw [hsame, hshift]
    cases x.outcome c₁ with
    | ok v => exact congrArg Except.ok (Value.moved_zero v)
    | error f => exact congrArg Except.error (Failure.moved_zero f)

/-- Decoders go to a byte in common and decode from there side by side. -/
theorem decodeAt_alike (hbase : P.base = 0) (hpart : P.accord ≠ .part) {s₁ : σ₁} {s₂ : σ₂}
    (h₁ : P.First s₁) (h₂ : P.Second s₂) {k : Nat} (hk : k ≤ P.reach) :
    P.Reads 0 (Value.moved P.shift) False (P.left.decodeAt k { source := s₁ })
      (P.right.decodeAt (k + P.shift) { source := s₂ }) := by
  have hwords := P.word
  unfold Decoder.decodeAt Decoder.seek Word.mul?
  by_cases hword : k * 8 < Word.modulus
  · have hfar : (k + P.shift) * 8 < Word.modulus := by
      unfold reach at hk
      omega
    have hlast : k * 8 + 7 < Word.modulus := by
      unfold Word.modulus at *
      omega
    have hside :
        P.Side 0 { pos := k * 8, source := s₁ } { pos := (k + P.shift) * 8, source := s₂ } :=
      ⟨h₁, h₂, by dsimp only; omega, hlast, by omega, by dsimp only; omega, Nat.zero_le _⟩
    rw [if_pos hword, if_pos hfar, Reader.moveTo_bind, Reader.moveTo_bind]
    unfold Decoder.decode
    rw [show P.left.document = P.document from rfl, show P.right.document = P.document from rfl]
    cases P.document.start with
    | none => exact fail_placeless_alike hside fun _ => rfl
    | some i => exact readElement_alike Decoder.depthLimit i (fun hp => absurd hp hpart) hside
  · -- a word is too small for the place, which is the same on both sides then
    have hzero : P.shift = 0 := by
      unfold reach at hk
      omega
    rw [hzero, Nat.add_zero, if_neg hword]
    refine .error (.of_placeless fun _ => rfl) ⟨h₁, h₂, ?_, ?_, ?_, ?_, Nat.zero_le _⟩
    · rw [hzero]
    · exact (by decide : 0 + 7 < Word.modulus)
    · omega
    · exact Nat.zero_le _

end Pairing

/-! ## The bytes around a structure -/

/-- The length of a structure and what is added to it are constants that make so many bytes. -/
def Document.FixedBytes (doc : Document) (i bytes : Nat) : Prop :=
  ∃ length extra : Int, doc.length i = some (.constant length) ∧
    (doc.lengthOffset i = none ∧ extra = 0 ∨ doc.lengthOffset i = some (.constant extra)) ∧
    (length + extra) * (doc.lengthUnit i).bits = 8 * bytes

namespace Decoder

variable {σ : Type} {d : Decoder σ} {ctx outer : Context} {label i bytes : Nat}

/-- Constants have their value in all surroundings, unless it is too large. -/
theorem extentBits?_fixed (h : d.document.FixedBytes i bytes) (ctx : Context) :
    d.extentBits? ctx i = .ok (some (8 * bytes)) ∨
      d.extentBits? ctx i = .error (.malformed .lengthTooLarge) := by
  obtain ⟨length, extra, hlength, hoffset, hbytes⟩ := h
  have hunit : (d.document.lengthUnit i).bits = 1 ∨ (d.document.lengthUnit i).bits = 8 := by
    cases d.document.lengthUnit i with
    | bit => exact Or.inl rfl
    | byte => exact Or.inr rfl
  have htotal : d.total ctx i length = .ok (length + extra) ∨
      d.total ctx i length = .error (.malformed .lengthTooLarge) := by
    unfold total
    rcases hoffset with ⟨hnone, rfl⟩ | hsome
    · rw [hnone]
      exact Or.inl (by rw [Int.add_zero])
    · rw [hsome]
      simp only [evaluate_constant]
      split
      · exact Or.inl rfl
      · exact Or.inr rfl
  have hsum : 0 ≤ length + extra := by
    rcases hunit with hone | height
    · rw [hone] at hbytes
      omega
    · rw [height] at hbytes
      omega
  have hnat : (length + extra).toNat * (d.document.lengthUnit i).bits = 8 * bytes := by
    rcases hunit with hone | height
    · rw [hone] at hbytes ⊢
      omega
    · rw [height] at hbytes ⊢
      omega
  unfold extentBits?
  simp only [hlength, evaluate_constant]
  rcases htotal with hok | herror
  · have hbitsOf : d.bitsOf i (length + extra) = .ok (8 * bytes) ∨
        d.bitsOf i (length + extra) = .error (.malformed .lengthTooLarge) := by
      unfold bitsOf Word.mul?
      rw [if_neg (by omega), hnat]
      by_cases hword : 8 * bytes < Word.modulus
      · rw [if_pos hword]
        exact Or.inl rfl
      · rw [if_neg hword]
        exact Or.inr rfl
    rcases hbitsOf with hb | hb
    · refine Or.inl ?_
      have hwhole : wholeBytes (8 * bytes) = .ok (8 * bytes) := if_pos (by omega)
      simp only [hok, hb, hwhole, bind, Except.bind, pure, Except.pure]
    · refine Or.inr ?_
      simp only [hok, hb, bind, Except.bind]
  · refine Or.inr ?_
    simp only [herror, bind, Except.bind]

/-- The first thing that is settled of such a structure is its end. -/
theorem Settles.fixed_end {start : Nat} {c : Cursor σ} {p : Progress σ}
    (h : d.document.FixedBytes i bytes)
    (hsettles : Settles d outer i start false { cursor := c } p) :
    p.extent = .fixed (start + 8 * bytes) := by
  have hbits := extentBits?_fixed h (Progress.context { cursor := c } outer)
  cases hsettles with
  | known hknown => exact absurd rfl hknown
  | waits _ herror hname _ =>
      rcases hbits with hok | htoo
      · rw [hok] at herror
        cases herror
      · rw [htoo] at herror
        cases herror
        cases hname
  | unbounded _ hnone =>
      rcases hbits with hok | htoo
      · rw [hok] at hnone
        cases hnone
      · rw [htoo] at hnone
        cases hnone
  | fixed _ hsome =>
      rcases hbits with hok | htoo
      · rw [hok] at hsome
        cases hsome
        rfl
      · rw [htoo] at hsome
        cases hsome

/-- If the end is too large nothing is read. -/
theorem readStructure_tooLarge (read : ElementReader σ) (outer : Context) (label : Nat)
    (body : StructBody) (h : d.document.FixedBytes i bytes) {c : Cursor σ} (hal : c.pos % 8 = 0)
    (hfar : Word.modulus ≤ c.pos + 8 * bytes) :
    d.readStructure read outer label i body c =
      .error (if d.document.order i = .fixed then
          inStructure label c.pos c.pos [] { cause := .malformed .lengthTooLarge }
        else { cause := .unsupported .freeOrder }) c := by
  have hsettle : d.settle outer i c.pos false { cursor := c } =
      .error { cause := .malformed .lengthTooLarge } { cursor := c } := by
    unfold settle
    rcases extentBits?_fixed h (Progress.context { cursor := c } outer) with hbits | hbits
    · have hstop : stopOf c.pos c.pos (8 * bytes) = .error (.malformed .lengthTooLarge) := by
        unfold stopOf Word.add?
        rw [if_neg (by omega)]
      simp only [hbits, hstop]
    · simp only [hbits]
      rfl
  have hfields : d.readFields read outer i c.pos body.elements { cursor := c } =
      .error { cause := .malformed .lengthTooLarge } { cursor := c } := by
    unfold readFields
    exact Reader.bind_of_error hsettle
  unfold readStructure
  by_cases horder : d.document.order i = .fixed
  · have hordered := (Reader.Checks.require _ (.unsupported .freeOrder)).of horder c
    have haligned : (Reader.ensureAligned : Reader σ Unit) c = .ok () c :=
      (Reader.Checks.require _ (.misaligned c.pos)).of hal c
    rw [Reader.bind_of_ok hordered, Reader.bind_of_ok haligned, if_pos horder]
    refine Eq.trans Reader.pos_bind ?_
    dsimp only
    rw [hfields]
  · unfold Reader.require
    rw [if_neg horder, if_neg horder]
    rfl

end Decoder

/-- A part of a part of the data. -/
theorem Bytes.slice_slice {data : Bytes} {o n offset count : Nat} (hle : o ≤ offset)
    (hin : offset + count ≤ o + n) :
    Bytes.slice (Bytes.slice data o n) (offset - o) count = Bytes.slice data offset count := by
  unfold Bytes.slice
  rw [Array.extract_extract]
  congr 1 <;> omega

/-- Two byte strings with the bytes of a structure in common. -/
def Pairing.around (document : Document) (evaluator : Evaluator) {o n : Nat} {data₁ data₂ : Bytes}
    (hword : o + n < Word.modulus) (h₁ : o + n ≤ data₁.size) (h₂ : o + n ≤ data₂.size)
    (hsame : Bytes.slice data₁ o n = Bytes.slice data₂ o n) : Pairing Bytes Bytes where
  document
  evaluator
  first := .plain
  second := .plain
  First := (· = data₁)
  Second := (· = data₂)
  data := data₁.extract 0 (o + n)
  base := o
  shift := 0
  accord := .part
  word := by
    rw [Array.size_extract]
    omega
  gives₁ := fun {s offset} count hs hbase hoffset hpart => by
    have hin := hpart rfl
    rw [Array.size_extract] at hin
    obtain ⟨s', hread, hs'⟩ := (ByteSource.plain_serves data₁).readFull count hoffset
      (Or.inr (by omega)) hs
    refine ⟨s', ?_, hs'⟩
    rw [hread, Nat.add_zero]
    unfold Bytes.slice
    rw [Array.extract_extract]
    congr 3 <;> omega
  gives₂ := fun {s offset} count hs hbase hoffset hpart => by
    have hin := hpart rfl
    rw [Array.size_extract] at hin
    obtain ⟨s', hread, hs'⟩ := (ByteSource.plain_serves data₂).readFull count hoffset
      (Or.inr (by omega)) hs
    refine ⟨s', ?_, hs'⟩
    rw [hread, Nat.add_zero, ← Bytes.slice_slice hbase (n := n) (by omega), ← hsame,
      Bytes.slice_slice hbase (by omega)]
    unfold Bytes.slice
    rw [Array.extract_extract]
    congr 3 <;> omega
  sizes := fun hs₁ hs₂ => by
    rw [hs₁, hs₂]
    refine ⟨data₁.size, data₂.size, rfl, rfl, ?_, ?_⟩
    · rw [Array.size_extract]
      omega
    · rw [Array.size_extract]
      omega

namespace Decoder

/-- **A structure of fixed length is isolated from the bytes around it.** Take two byte strings in
which the same bytes stand where the structure is, and read it in the same surroundings and as deep
inside other elements: the value is the same, or the failure with its cause, its path and what it
has salvaged. If the end of the structure cannot be counted in bits it fails for its length. -/
theorem readElement_isolated (doc : Document) (evaluator : Evaluator) {i n : Nat}
    {body : StructBody} (hbody : (doc.element i).body = .struct body) (hfixed : doc.FixedBytes i n)
    (levels : Nat) (ctx : Context) (o : Nat) {data₁ data₂ : Bytes} (h₁ : o + n ≤ data₁.size)
    (h₂ : o + n ≤ data₂.size) (hsame : Bytes.slice data₁ o n = Bytes.slice data₂ o n) :
    ((scriptless doc evaluator .plain).readElement levels ctx i).outcome
        { pos := 8 * o, source := data₁ } =
      ((scriptless doc evaluator .plain).readElement levels ctx i).outcome
        { pos := 8 * o, source := data₂ } := by
  have hs : doc.structureOf? i = some (i, body) := by
    unfold Document.structureOf?
    rw [hbody]
  cases levels with
  | zero => rfl
  | succ levels =>
      by_cases hword : 8 * (o + n) < Word.modulus
      · -- the fields are read where the bytes are in common, because the end is settled first
        let P := Pairing.around doc evaluator (by omega) h₁ h₂ hsame
        have hreach : P.reach = o + n := by
          change (data₁.extract 0 (o + n)).size = o + n
          rw [Array.size_extract]
          omega
        have hside :
            P.Side 0 { pos := 8 * o, source := data₁ } { pos := 8 * o, source := data₂ } := by
          refine ⟨rfl, rfl, rfl, ?_, Nat.le_refl _, ?_, Nat.zero_le _⟩
          · unfold Word.modulus at *
            dsimp only
            omega
          · dsimp only
            omega
        have hread : P.Reads 0 (Value.moved P.shift) False
            (P.left.readElement (levels + 1) ctx i { pos := 8 * o, source := data₁ })
            (P.right.readElement (levels + 1) (ctx.moved P.shift) i
              { pos := 8 * o, source := data₂ }) := by
          refine Pairing.readElement_of_body hside ?_
          rw [readBody_of_structure (d := P.left) hs, readBody_of_structure (d := P.right) hs]
          refine Pairing.readStructure_alike (Pairing.readElement_alike levels) hside hs ?_
          intro p hsettles hpart
          rw [Progress.context_limit_fixed (hsettles.fixed_end (d := P.left) hfixed)]
          refine ⟨_, rfl, ?_⟩
          dsimp only
          cases ctx.limit with
          | none => dsimp only; omega
          | some limit => dsimp only; omega
        have houtcome :=
          Pairing.outcome_eq (x := P.left.readElement (levels + 1) ctx i) hread nofun rfl
        rw [show P.shift = 0 from rfl, Context.moved_zero] at houtcome
        exact houtcome.symm
      · -- the end is too large, which does not depend on the data
        have hopens :
            (scriptless doc evaluator .plain).document.structureOf? i = some (i, body) := hs
        have hbytes : (scriptless doc evaluator .plain).document.FixedBytes i n := hfixed
        have hfails (data : Bytes) := readStructure_tooLarge
          ((scriptless doc evaluator .plain).readElement levels) ctx i body hbytes
          (c := { pos := 8 * o, source := data }) (by dsimp only; omega) (by dsimp only; omega)
        have hbody (data : Bytes) := (congrFun (readBody_of_structure hopens) _).trans (hfails data)
        unfold Reader.outcome
        rw [readElement_of_error (hbody data₁), readElement_of_error (hbody data₂)]

end Decoder

/-! ## The source -/

/-- A byte string, and a source that serves it. -/
def Pairing.served (document : Document) (evaluator : Evaluator) {σ : Type} {src : ByteSource σ}
    {data : Bytes} {I : σ → Prop} (hserves : src.Serves data I) (hword : data.size < Word.modulus)
    (accord : Accord)
    (hsizes : ∀ s, I s → accord.Sizes data.size 0 (some data.size) (src.size s)) :
    Pairing Bytes σ where
  document
  evaluator
  first := .plain
  second := src
  First := (· = data)
  Second := I
  data
  base := 0
  shift := 0
  accord
  word := Or.inr ⟨rfl, hword⟩
  gives₁ := fun count hs _ hoffset _ =>
    (ByteSource.plain_serves data).readFull count hoffset (Or.inl hword) hs
  gives₂ := fun count hs _ hoffset _ => hserves.readFull count hoffset (Or.inl hword) hs
  sizes := fun hs₁ hs₂ => by
    rw [hs₁]
    exact hsizes _ hs₂

namespace Decoder

/-- The outcomes of two decoders are the same, but for the numbers with which both say that the data
end before a structure that has a length. -/
def SameButEnd {σ₁ σ₂ : Type} (d₁ : Decoder σ₁) (d₂ : Decoder σ₂) :
    Except Failure Value → Except Failure Value → Prop
  | .ok v, .ok w => w = v
  | .error f, .error g => g.path = f.path ∧ g.salvage = f.salvage ∧
    (g.cause = f.cause ∨ f.cause.isEndOfInput = true ∧ g.cause.isEndOfInput = true ∧
      ∃ before j s body, f.path = before ++ [(d₁.document.element j).name] ∧
        d₁.document.structureOf? j = some (s, body) ∧ (d₁.document.length s).isSome ∧
        d₁.FailsAt j f.cause ∧ d₂.FailsAt j g.cause)
  | _, _ => False

/-- **What is decoded depends on the source only through its bytes.** Take a source that serves some
data in whatever pieces and with whatever interruptions, and decode from a place in them. If it
tells their number the outcome is that for the data in memory. If it does not, the value is the
same, or the path, what was salvaged and the cause; only where both say that the data end before a
structure that has a length they may say it with other numbers. -/
theorem decodeAt_served (doc : Document) (evaluator : Evaluator) {σ : Type} {src : ByteSource σ}
    {data : Bytes} {I : σ → Prop} (hserves : src.Serves data I) (hword : data.size < Word.modulus)
    {s : σ} (hs : I s) {k : Nat} (hk : k ≤ data.size) :
    ((∀ s, I s → src.size s = some data.size) →
      ((scriptless doc evaluator src).decodeAt k).outcome { source := s } =
        ((scriptless doc evaluator .plain).decodeAt k).outcome { source := data }) ∧
    ((∀ s, I s → src.size s = none) →
      SameButEnd (scriptless doc evaluator .plain) (scriptless doc evaluator src)
        (((scriptless doc evaluator .plain).decodeAt k).outcome { source := data })
        (((scriptless doc evaluator src).decodeAt k).outcome { source := s })) := by
  constructor
  · intro hsize
    let P := Pairing.served doc evaluator hserves hword .whole fun s hs => ⟨rfl, hsize s hs⟩
    have h := P.decodeAt_alike rfl nofun rfl hs hk
    exact Pairing.outcome_eq (x := P.left.decodeAt k) (y := P.right.decodeAt k) h nofun rfl
  · intro hsize
    let P := Pairing.served doc evaluator hserves hword .untold fun s hs => ⟨rfl, hsize s hs⟩
    have h := P.decodeAt_alike rfl nofun rfl hs hk
    unfold Reader.outcome
    change P.Reads 0 (Value.moved 0) False
      ((scriptless doc evaluator .plain).decodeAt k { source := data })
      ((scriptless doc evaluator src).decodeAt k { source := s }) at h
    generalize (scriptless doc evaluator .plain).decodeAt k { source := data } = r₁ at h ⊢
    generalize (scriptless doc evaluator src).decodeAt k { source := s } = r₂ at h ⊢
    cases h with
    | ok v _ => exact Value.moved_zero v
    | tooLarge hshift _ => exact absurd rfl hshift
    | @error f g _ _ hfail _ =>
        refine ⟨hfail.path, ?_, ?_⟩
        · have hid : Value.moved 0 = id := funext Value.moved_zero
          rw [hfail.salvage, show P.shift = 0 from rfl, hid, Option.map_id, id]
        · rcases hfail.cause with hsame | ⟨_, hf, hg, ⟨hown, _⟩ | hexcused⟩
          · rw [show P.shift = 0 from rfl, Cause.moved_zero] at hsame
            exact Or.inl hsame
          · exact hown.elim
          · obtain ⟨before, j, hpath, ⟨t, body, ht, hlength⟩, hfails⟩ := hexcused
            exact Or.inr ⟨hf, hg, before, j, t, body, hpath, ht, hlength, hfails⟩

end Decoder

/-! ## The place of the data -/

theorem Bytes.slice_append_right (front data : Bytes) (offset count : Nat) :
    Bytes.slice (front ++ data) (offset + front.size) count = Bytes.slice data offset count := by
  have hfront : front.extract (offset + front.size) (offset + front.size + count) = #[] := by
    apply Array.extract_empty_of_size_le_start
    omega
  unfold Bytes.slice
  rw [Array.extract_append, hfront, Array.empty_append]
  congr 1 <;> omega

/-- A byte string, and the same bytes behind others. -/
def Pairing.behind (document : Document) (evaluator : Evaluator) (front data : Bytes)
    (hsize : front.size + data.size < 2 ^ 60) : Pairing Bytes Bytes where
  document
  evaluator
  first := .plain
  second := .plain
  First := (· = data)
  Second := (· = front ++ data)
  data
  base := 0
  shift := front.size
  accord := .whole
  word := by
    unfold Word.modulus
    omega
  gives₁ := fun count hs _ hoffset _ =>
    (ByteSource.plain_serves data).readFull count hoffset
      (Or.inl (by unfold Word.modulus; omega)) hs
  gives₂ := fun {s offset} count hs _ hoffset _ => by
    have h := (ByteSource.plain_serves (front ++ data)).readFull count hoffset
      (Or.inl (by rw [Array.size_append]; unfold Word.modulus; omega)) hs
    rwa [Bytes.slice_append_right] at h
  sizes := fun hs₁ hs₂ => by
    rw [hs₁, hs₂]
    refine ⟨rfl, ?_⟩
    change some (front ++ data).size = _
    rw [Array.size_append, Nat.add_comm]

/-- **What is decoded does not depend on where the data begin.** Behind other bytes the data are
decoded as they are alone, with all offsets further on by the number of these bytes and all bit
positions by that of their bits; payloads, lengths and spans of bits, paths and the numbers of bytes
that are needed and available are the same. The only exception is a structure whose end is too large
for a word. -/
theorem Decoder.decodeAt_moved (doc : Document) (evaluator : Evaluator) (front data : Bytes)
    (hsize : front.size + data.size < 2 ^ 60) {k : Nat} (hk : k ≤ data.size) :
    (∃ f, ((scriptless doc evaluator .plain).decodeAt (front.size + k)).outcome
        { source := front ++ data } = .error f ∧ f.cause = .malformed .lengthTooLarge) ∨
      ((scriptless doc evaluator .plain).decodeAt (front.size + k)).outcome
          { source := front ++ data } =
        ((((scriptless doc evaluator .plain).decodeAt k).outcome { source := data }).map
          (Value.moved front.size)).mapError (Failure.moved front.size) := by
  let P := Pairing.behind doc evaluator front data hsize
  have h := P.decodeAt_alike rfl nofun rfl rfl hk
  rw [Nat.add_comm front.size k]
  rcases Pairing.outcome_moved (x := P.left.decodeAt k) (y := P.right.decodeAt (k + P.shift)) h
      nofun
    with ⟨_, hfail⟩ | hsame
  · exact Or.inl hfail
  · exact Or.inr hsame

/-! ## A word in a record of four bytes

A record has a number of one byte and a text, which ends with a zero or with the record. -/

/-- The grammar of the record. -/
def Document.worded : Document :=
  .ofParts "" { start := some { reference := .id 1, target := some 2 } }
    #[{ ident := { name := "number" }, body := .number { length := some (.constant 1) } },
      { ident := { name := "text" }, body := .string {} },
      { ident := { name := "record" },
        body := .struct { length := some (.constant 4), elements := [0, 1] } }] #[]

namespace Decoder

theorem worded_fixedBytes : Document.worded.FixedBytes 2 4 :=
  ⟨4, 0, rfl, Or.inl ⟨rfl, rfl⟩, rfl⟩

/-- Whether there is a zero after the record does not matter to the text in it. -/
theorem readElement_isolated_worded :
    ((scriptless .worded Formula.evaluate .plain).readElement depthLimit {} 2).outcome
        { pos := 8, source := #[7, 1, 65, 66, 67, 0] } =
      ((scriptless .worded Formula.evaluate .plain).readElement depthLimit {} 2).outcome
        { pos := 8, source := #[0, 1, 65, 66, 67, 68, 69, 0] } :=
  readElement_isolated .worded Formula.evaluate rfl worded_fixedBytes depthLimit {} 1 (by decide)
    (by decide) (by decide)

/-- The record is decoded from a source that is interrupted all the time, and a record that is too
short from one that does not tell its size. -/
theorem decodeAt_served_worded :
    ((scriptless .worded Formula.evaluate .choppy).decodeAt 1).outcome
        { source := (#[7, 1, 65, 66, 67], 0) } =
      ((scriptless .worded Formula.evaluate .plain).decodeAt 1).outcome
        { source := #[7, 1, 65, 66, 67] } ∧
    SameButEnd (scriptless .worded Formula.evaluate .plain)
      (scriptless .worded Formula.evaluate .unsized)
      (((scriptless .worded Formula.evaluate .plain).decodeAt 1).outcome
        { source := #[7, 1, 65] })
      (((scriptless .worded Formula.evaluate .unsized).decodeAt 1).outcome
        { source := #[7, 1, 65] }) :=
  ⟨(decodeAt_served .worded Formula.evaluate (ByteSource.choppy_serves #[7, 1, 65, 66, 67])
      (by decide) rfl (by decide)).1 fun s hs => by rw [← hs]; rfl,
    (decodeAt_served .worded Formula.evaluate (ByteSource.unsized_serves #[7, 1, 65])
      (by decide) rfl (by decide)).2 fun _ _ => rfl⟩

/-- Behind two bytes the record begins with the third. -/
theorem decodeAt_moved_worded :
    ∃ v, ((scriptless .worded Formula.evaluate .plain).decodeAt (2 + 0)).outcome
        { source := #[8, 9] ++ #[1, 65, 66, 67] } = .ok v ∧ v.offset = 2 ∧
      v.children.map (·.offset) = [2, 3] := by
  have h : ((scriptless .worded Formula.evaluate .plain).decodeAt 0).outcome
      { source := #[1, 65, 66, 67] } = .ok
        { element := 2, offset := 0, length := 4,
          children :=
            [{ element := 0, offset := 0, length := 1, payload := .int 1 },
              { element := 1, offset := 1, length := 3, payload := .text "ABC" }] } := by cbv
  rcases decodeAt_moved .worded Formula.evaluate #[8, 9] #[1, 65, 66, 67] (by decide) (k := 0)
    (by decide) with ⟨f, hfail, _⟩ | hmoved
  · have hok : (((scriptless .worded Formula.evaluate .plain).decodeAt (2 + 0)).outcome
        { source := #[8, 9] ++ #[1, 65, 66, 67] }).isOk = true := by cbv
    rw [show 2 + 0 = (#[8, 9] : Bytes).size + 0 from rfl, hfail] at hok
    cases hok
  · rw [h] at hmoved
    exact ⟨_, hmoved, rfl, rfl⟩

end Decoder

end BinaryGrammar
