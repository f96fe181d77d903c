import BinaryGrammar.Proofs.Taking

/-!
# Scanning for a terminator

A text that a terminator ends is fetched in windows, and the terminator is looked for in each of
them. Over a source that serves its data this finds what there is to find in all bytes at once:
those from the cursor on, up to the bound of the element and as far as there is room in the
enclosing structure. The bytes before the first unit that is the terminator are the text, and if no
unit is, all whole units are. It does not matter how wide the windows are as long as a unit fits
into one.
-/

set_option autoImplicit false

namespace BinaryGrammar

namespace Reader

variable {σ α β : Type}

/-- A run fails, and leaves the cursor where it was and the source in one of the states `I`. -/
def Refuses (I : σ → Prop) (x : Reader σ α) (c : Cursor σ) (failure : Failure) : Prop :=
  ∃ c', x c = .error failure c' ∧ c'.pos = c.pos ∧ I c'.source

variable {I : σ → Prop} {x : Reader σ α} {f : α → Reader σ β} {c : Cursor σ} {a : α}
  {failure : Failure}

/-- The steps after one that delivers may fail. -/
theorem Delivers.refuses_bind (hx : Delivers I x c a c.pos)
    (hf : ∀ c', f a c' = .error failure c') : Refuses I (x >>= f) c failure := by
  obtain ⟨c', hrun, hpos, hc'⟩ := hx
  exact ⟨c', (bind_of_ok hrun).trans (hf c'), hpos, hc'⟩

end Reader

/-! ## What there is to find -/

namespace Bytes

/-- The first unit of some bytes that is a given one has the number `k`. -/
structure FirstUnit (bytes unit : Bytes) (k : Nat) : Prop where
  inside : (k + 1) * unit.size ≤ bytes.size
  here : bytes.unitAt unit.size k = unit
  before : ∀ j < k, bytes.unitAt unit.size j ≠ unit

theorem findUnit?_eq_some_iff {bytes unit : Bytes} {k : Nat} (hunit : 0 < unit.size) :
    bytes.findUnit? unit.size (bytes.size / unit.size) (· == unit) = some k ↔
      bytes.FirstUnit unit k := by
  unfold findUnit?
  rw [List.find?_range_eq_some, List.mem_range, ← Nat.succ_le_iff, Nat.le_div_iff_mul_le hunit]
  constructor
  · rintro ⟨hhere, hinside, hbefore⟩
    refine ⟨hinside, beq_iff_eq.mp hhere, fun j hj heq => ?_⟩
    have hnot := hbefore j hj
    dsimp only at hnot
    rw [heq, beq_self_eq_true] at hnot
    cases hnot
  · rintro ⟨hinside, hhere, hbefore⟩
    refine ⟨beq_iff_eq.mpr hhere, hinside, fun j hj => ?_⟩
    dsimp only
    rw [beq_false_of_ne (hbefore j hj)]
    rfl

/-- The first bytes, up to a bound if there is one. -/
def cut (bytes : Bytes) (bound : Option Nat) : Bytes := bytes.extract 0 (bound.getD bytes.size)

/-- The bytes from an offset on in which a scan may look: those before the bound that have room. -/
def scannable (data : Bytes) (offset : Nat) (max room : Option Nat) : Bytes :=
  cut (cut (data.extract offset data.size) max) room

theorem extract_congr {data : Bytes} {offset i j : Nat} (h : min i data.size = min j data.size) :
    data.extract offset i = data.extract offset j := by
  refine Array.ext ?_ fun k _ _ => ?_
  · rw [Array.size_extract, Array.size_extract, h]
  · rw [Array.getElem_extract, Array.getElem_extract]

end Bytes

namespace Decoder.Scan

variable {terminator : Bytes}

/-- What a scan of some bytes as a whole finds: the bytes before the first unit that is the
terminator, or else all whole units. -/
def whole (terminator bytes : Bytes) : Scan :=
  match bytes.findUnit? terminator.size (bytes.size / terminator.size) (· == terminator) with
  | some k => ⟨bytes.extract 0 (k * terminator.size), k * terminator.size + terminator.size⟩
  | none =>
    ⟨bytes.extract 0 (bytes.size / terminator.size * terminator.size),
      bytes.size / terminator.size * terminator.size⟩

/-- A scan that goes on after some text. -/
def after (text : Bytes) (found : Scan) : Scan := ⟨text ++ found.text, text.size + found.consumed⟩

theorem after_empty (found : Scan) : found.after #[] = found := by
  unfold after
  rw [Array.empty_append, Array.size_empty, Nat.zero_add]

/-- Nothing is found in bytes that are too few for a unit. -/
theorem whole_of_lt {bytes : Bytes} (h : bytes.size < terminator.size) :
    whole terminator bytes = ⟨#[], 0⟩ := by
  unfold whole
  rw [Bytes.findUnit?_of_lt h, Nat.div_eq_of_lt h, Nat.zero_mul]
  rw [Array.extract_empty_of_stop_le_start (Nat.le_refl _)]

section

variable {a b : Bytes} (hunit : 0 < terminator.size) (ha : a.size % terminator.size = 0)
include hunit ha

/-- A terminator that is found in some bytes is found whatever follows them. -/
theorem whole_append_of_some {k : Nat}
    (h : a.findUnit? terminator.size (a.size / terminator.size) (· == terminator) = some k) :
    whole terminator (a ++ b) =
      ⟨a.extract 0 (k * terminator.size), k * terminator.size + terminator.size⟩ := by
  have hle := findUnit?_le h
  unfold whole
  rw [Bytes.unitCount_append hunit ha, Bytes.findUnit?_append ha, h]
  change Scan.mk _ _ = _
  rw [Bytes.extract_append_of_le (by omega)]

/-- Bytes without a terminator stand before what is found in those that follow. -/
theorem whole_append_of_none
    (h : a.findUnit? terminator.size (a.size / terminator.size) (· == terminator) = none) :
    whole terminator (a ++ b) = (whole terminator b).after a := by
  have hsize : a.size / terminator.size * terminator.size = a.size := by
    have hmod := Nat.div_add_mod a.size terminator.size
    rw [Nat.mul_comm] at hmod
    omega
  have hextract (n : Nat) : (a ++ b).extract 0 (a.size + n) = a ++ b.extract 0 n := by
    rw [Array.extract_append, Array.extract_eq_self_of_le (by omega)]
    congr 2 <;> omega
  unfold whole after
  rw [Bytes.unitCount_append hunit ha, Bytes.findUnit?_append ha, h, Option.none_or]
  cases b.findUnit? terminator.size (b.size / terminator.size) (· == terminator) with
  | some k =>
      change Scan.mk _ _ = Scan.mk _ _
      rw [Nat.add_mul, hsize, hextract, Nat.add_assoc]
  | none =>
      change Scan.mk _ _ = Scan.mk _ _
      rw [Nat.add_mul, hsize, hextract]

end

/-- A scan comes to its end within the first bytes, or goes on after their whole units. -/
theorem whole_of_window {bytes got rest : Bytes} (hunit : 0 < terminator.size)
    (hbytes : bytes = got.wholeUnits terminator.size ++ rest) :
    whole terminator bytes =
      match got.findUnit? terminator.size (got.size / terminator.size) (· == terminator) with
      | some k => ⟨got.extract 0 (k * terminator.size), k * terminator.size + terminator.size⟩
      | none => (whole terminator rest).after (got.wholeUnits terminator.size) := by
  have hsize := Bytes.size_wholeUnits got terminator.size
  have hmod : (got.wholeUnits terminator.size).size % terminator.size = 0 := by
    rw [hsize, Nat.mul_mod_left]
  have hfind := Bytes.findUnit?_wholeUnits got hunit (· == terminator)
  rw [hbytes]
  cases hgot : got.findUnit? terminator.size (got.size / terminator.size) (· == terminator) with
  | some k =>
      rw [hgot] at hfind
      have hle := findUnit?_le hfind
      rw [whole_append_of_some hunit hmod hfind]
      unfold Bytes.wholeUnits
      rw [Array.extract_extract, Nat.zero_add, Nat.zero_add, Nat.min_eq_left (by omega)]
  | none =>
      rw [hgot] at hfind
      exact whole_append_of_none hunit hmod hfind

end Decoder.Scan

namespace Decoder

/-- What there is to find in some bytes: the bytes before the first unit that is the terminator,
which is consumed as well, or else as many whole units as there are. -/
inductive Scan.Finds (terminator bytes : Bytes) : Scan → Prop
  | terminated {k : Nat} : bytes.FirstUnit terminator k →
    Finds terminator bytes ⟨bytes.extract 0 (k * terminator.size), (k + 1) * terminator.size⟩
  | unterminated : (∀ k, ¬ bytes.FirstUnit terminator k) →
    Finds terminator bytes
      ⟨bytes.wholeUnits terminator.size, (bytes.wholeUnits terminator.size).size⟩

/-- A scan of the bytes as a whole finds it. -/
theorem Scan.whole_finds {terminator : Bytes} (hunit : 0 < terminator.size) (bytes : Bytes) :
    Scan.Finds terminator bytes (Scan.whole terminator bytes) := by
  unfold Scan.whole
  cases hfind :
      bytes.findUnit? terminator.size (bytes.size / terminator.size) (· == terminator) with
  | some k =>
      have hfirst := (Bytes.findUnit?_eq_some_iff hunit).mp hfind
      dsimp only
      rw [← Nat.succ_mul]
      exact .terminated hfirst
  | none =>
      have hnone (k : Nat) : ¬ bytes.FirstUnit terminator k := fun hfirst => by
        rw [(Bytes.findUnit?_eq_some_iff hunit).mpr hfirst] at hfind
        cases hfind
      have hfinds := Scan.Finds.unterminated hnone
      rw [Bytes.size_wholeUnits] at hfinds
      exact hfinds

variable {σ : Type}

/-! ## Windows of any width -/

/-- Look for a terminator as a decoder does, but in windows of so many bytes. -/
def scanBy (d : Decoder σ) (width : Nat) (terminator : Bytes) (offset cap : Nat) :
    Nat → Bytes → Reader σ Scan
  | 0, text => pure ⟨text, text.size⟩
  | windows + 1, text => do
    let unit := terminator.size
    Reader.require (text.size ≤ cap) .overflow
    let want := min (cap - text.size) width
    if want < unit then pure ⟨text, text.size⟩
    else
      let got ← d.fetch (offset + text.size) want
      let units := got.size / unit
      match got.findUnit? unit units (· == terminator) with
      | some i =>
        Reader.requireWord (text.size + i * unit + unit)
        pure ⟨text ++ got.extract 0 (i * unit), text.size + i * unit + unit⟩
      | none =>
        Reader.requireWord (text.size + units * unit)
        let text := text ++ got.extract 0 (units * unit)
        if got.size < want then pure ⟨text, text.size⟩
        else d.scanBy width terminator offset cap windows text

/-- Take the bytes before a terminator as a decoder does, but look for it in windows of so many
bytes. A window brings the scan on by its whole units. -/
def takeTerminatedBy (d : Decoder σ) (width : Nat) (ctx : Context) (terminator : Bytes)
    (max : Option Nat) : Reader σ Bytes := do
  let pos ← Reader.pos
  let room := ctx.room pos
  let cap := scanCap max room
  let windows := cap / (width / terminator.size * terminator.size) + 2
  let found ← d.scanBy width terminator (pos / 8) cap windows #[]
  Reader.require (found.consumed ≠ 0 ∨ max = some 0) (nothingThere room (pos / 8) terminator.size)
  Reader.requireWord (pos + found.consumed * 8)
  Reader.moveTo (pos + found.consumed * 8)
  return found.text

variable {d : Decoder σ} {data terminator : Bytes} {I : σ → Prop} {ctx : Context} {c : Cursor σ}

theorem scan_eq_scanBy (d : Decoder σ) (terminator : Bytes) (offset cap : Nat) :
    ∀ (windows : Nat) (text : Bytes), d.scan terminator offset cap windows text =
      d.scanBy window terminator offset cap windows text := by
  intro windows
  induction windows with
  | zero =>
      intro text
      rfl
  | succ windows ih =>
      intro text
      unfold scan scanBy
      rewrite [funext ih]
      rfl

/-- A decoder's own windows hold whole units. -/
theorem takeTerminated_eq_takeTerminatedBy (d : Decoder σ) (ctx : Context)
    (hunit : terminator.size = 1 ∨ terminator.size = 2) (max : Option Nat) :
    d.takeTerminated ctx terminator max = d.takeTerminatedBy window ctx terminator max := by
  have hwhole : window / terminator.size * terminator.size = window := by
    rcases hunit with hunit | hunit <;> rw [hunit] <;> rfl
  unfold takeTerminated takeTerminatedBy
  simp only [scan_eq_scanBy, hwhole]

open Reader (Delivers Refuses)

section

variable (hserves : d.source.Serves data I) (hunit : 0 < terminator.size)
include hserves hunit

/-- **Window by window a scan finds what it would find in the bytes as a whole.** The windows
suffice if they reach beyond the bound, or if less than a unit is left before it. -/
theorem scanBy_delivers {width offset cap : Nat} (hwidth : terminator.size ≤ width)
    (hdata : data.size < Word.modulus) :
    ∀ (windows : Nat) (text : Bytes) (c : Cursor σ), I c.source →
    offset + text.size < Word.modulus → text.size ≤ cap →
    (cap < text.size + windows * (width / terminator.size * terminator.size) ∨
      cap < text.size + terminator.size) →
    Delivers I (d.scanBy width terminator offset cap windows text) c
      ((Scan.whole terminator
        (Bytes.slice data (offset + text.size) (cap - text.size))).after text) c.pos := by
  intro windows
  -- where less than a unit is left, nothing more is found
  have hlast (text : Bytes) (c : Cursor σ) (hc : I c.source)
      (hfew : (Bytes.slice data (offset + text.size) (cap - text.size)).size < terminator.size) :
      Delivers I (pure ⟨text, text.size⟩) c
        ((Scan.whole terminator
          (Bytes.slice data (offset + text.size) (cap - text.size))).after text) c.pos := by
    rw [Scan.whole_of_lt hfew]
    unfold Scan.after
    rw [Array.append_empty]
    exact .pure hc
  induction windows with
  | zero =>
      intro text c hc _ _ hcap
      have hslice := Bytes.size_slice_le data (offset + text.size) (cap - text.size)
      exact hlast text c hc (by omega)
  | succ windows ih =>
      intro text c hc hword hfit hcap
      unfold scanBy
      refine .check_bind (.require _ _) hfit ?_
      dsimp only
      split
      · rename_i hwant
        have hslice := Bytes.size_slice_le data (offset + text.size) (cap - text.size)
        exact hlast text c hc (by omega)
      · rename_i hwant
        refine .bind (fetch_delivers hserves hc hword (Or.inl hdata)) ?_
        intro c' hpos hc'
        have hgot : (Bytes.slice data (offset + text.size) (min (cap - text.size) width)).size =
            min (min (cap - text.size) width) (data.size - (offset + text.size)) := by
          unfold Bytes.slice
          rw [Array.size_extract]
          omega
        have hsplit := Bytes.slice_eq_wholeUnits data (offset + text.size) terminator.size
          (Nat.min_le_left (cap - text.size) width)
        generalize Bytes.slice data (offset + text.size) (min (cap - text.size) width) = got at *
        have hunits := Bytes.size_lt_wholeUnits got hunit
        have hle := Nat.div_mul_le_self got.size terminator.size
        rw [← Bytes.size_wholeUnits] at hle
        have hnext : (text ++ got.wholeUnits terminator.size).size =
            text.size + (got.wholeUnits terminator.size).size := Array.size_append
        rw [Scan.whole_of_window hunit hsplit, ← hpos]
        cases hfind : got.findUnit? terminator.size (got.size / terminator.size)
          (· == terminator) with
        | some k =>
            have hinside := findUnit?_le hfind
            dsimp only
            unfold Scan.after
            rw [← Nat.add_assoc]
            exact .check_bind (.require _ _) (by omega) (.pure hc')
        | none =>
            -- what is found after the window is found after the text and its whole units
            dsimp only
            rw [Nat.add_assoc, Nat.sub_sub, ← hnext]
            have hafter (found : Scan) : (found.after (got.wholeUnits terminator.size)).after text =
                found.after (text ++ got.wholeUnits terminator.size) := by
              unfold Scan.after
              rw [hnext, Array.append_assoc, Nat.add_assoc]
            rw [hafter]
            refine .check_bind (.require _ _) (by rw [← Bytes.size_wholeUnits]; omega) ?_
            change Delivers I (if got.size < min (cap - text.size) width then
              pure ⟨text ++ got.wholeUnits terminator.size,
                (text ++ got.wholeUnits terminator.size).size⟩
              else d.scanBy width terminator offset cap windows
                (text ++ got.wholeUnits terminator.size)) c' _ _
            split
            · refine hlast _ c' hc' ?_
              unfold Bytes.slice
              rw [Array.size_extract]
              omega
            · -- the window is as wide as it may be, or reaches the bound
              rename_i hfull
              refine ih _ c' hc' (by omega) (by omega) ?_
              have hwide (hsize : got.size = width) : (got.wholeUnits terminator.size).size =
                  width / terminator.size * terminator.size := by
                rw [Bytes.size_wholeUnits, hsize]
              rw [Nat.succ_mul] at hcap
              omega

end

/-- What may be scanned are the bytes from the cursor on, up to both bounds. -/
theorem slice_scanCap (hdata : data.size < Word.modulus) (offset : Nat) (max room : Option Nat) :
    Bytes.slice data offset (scanCap max room) = data.scannable offset max room := by
  unfold Bytes.scannable Bytes.cut Bytes.slice scanCap wholeSpace
  rw [Array.extract_extract, Array.extract_extract]
  refine Bytes.extract_congr ?_
  simp only [Array.size_extract]
  cases max with
  | none =>
      cases room with
      | none =>
          simp only [Option.getD_none]
          omega
      | some room =>
          simp only [Option.getD_none, Option.getD_some]
          omega
  | some max =>
      cases room with
      | none =>
          simp only [Option.getD_none, Option.getD_some]
          omega
      | some room =>
          simp only [Option.getD_some]
          omega

section

variable (hserves : d.source.Serves data I) (hc : I c.source) (hunit : 0 < terminator.size)
  (hword : c.pos < Word.modulus) (hdata : data.size < Word.modulus)
include hserves hc hunit hword hdata

/-- The windows that are made suffice. -/
theorem scanBy_whole (ctx : Context) {width : Nat} (hwidth : terminator.size ≤ width)
    (max : Option Nat) :
    Delivers I (d.scanBy width terminator (c.pos / 8) (scanCap max (ctx.room c.pos))
      (scanCap max (ctx.room c.pos) / (width / terminator.size * terminator.size) + 2) #[]) c
      (Scan.whole terminator (data.scannable (c.pos / 8) max (ctx.room c.pos))) c.pos := by
  rw [← slice_scanCap hdata]
  generalize scanCap max (ctx.room c.pos) = cap
  have hstep : 0 < width / terminator.size * terminator.size :=
    Nat.mul_pos (Nat.div_pos hwidth hunit) hunit
  have hwindows : cap < 0 + (cap / (width / terminator.size * terminator.size) + 2) *
      (width / terminator.size * terminator.size) := by
    have hlt := Nat.lt_div_mul_add (a := cap) hstep
    rw [Nat.add_mul]
    omega
  have hscan := scanBy_delivers hserves hunit hwidth hdata _ #[] c hc
    (show c.pos / 8 + 0 < Word.modulus by omega) (Nat.zero_le _) (Or.inl hwindows)
  rw [Array.size_empty, Nat.add_zero, Nat.sub_zero, Scan.after_empty] at hscan
  exact hscan

theorem takeTerminatedBy_delivers (ctx : Context) {width : Nat} (hwidth : terminator.size ≤ width)
    {max : Option Nat} {found : Scan}
    (hfound : found = Scan.whole terminator (data.scannable (c.pos / 8) max (ctx.room c.pos)))
    (hsome : found.consumed ≠ 0 ∨ max = some 0)
    (hstop : c.pos + 8 * found.consumed < Word.modulus) :
    Delivers I (d.takeTerminatedBy width ctx terminator max) c found.text
      (c.pos + 8 * found.consumed) := by
  have hscan := scanBy_whole hserves hc hunit hword hdata ctx hwidth max
  rw [← hfound] at hscan
  unfold takeTerminatedBy
  change Delivers I (d.scanBy width terminator (c.pos / 8) _ _ #[] >>= _) c _ _
  refine .bind hscan ?_
  intro c' hpos hc'
  rw [Nat.mul_comm 8] at hstop ⊢
  exact .check_bind (.require _ _) hsome (.check_bind (.require _ _) hstop (.moveTo_pure hc'))

theorem takeTerminatedBy_overflows (ctx : Context) {width : Nat} (hwidth : terminator.size ≤ width)
    {max : Option Nat} {found : Scan}
    (hfound : found = Scan.whole terminator (data.scannable (c.pos / 8) max (ctx.room c.pos)))
    (hsome : found.consumed ≠ 0 ∨ max = some 0)
    (hstop : Word.modulus ≤ c.pos + 8 * found.consumed) :
    Refuses I (d.takeTerminatedBy width ctx terminator max) c { cause := .overflow } := by
  have hscan := scanBy_whole hserves hc hunit hword hdata ctx hwidth max
  rw [← hfound] at hscan
  unfold takeTerminatedBy
  change Refuses I (d.scanBy width terminator (c.pos / 8) _ _ #[] >>= _) c _
  refine hscan.refuses_bind fun c' => ?_
  refine (Reader.require_of hsome).trans (Reader.require_not ?_)
  rw [Nat.mul_comm, Nat.not_lt]
  exact hstop

theorem takeTerminatedBy_refuses (ctx : Context) {width : Nat} (hwidth : terminator.size ≤ width)
    {max : Option Nat} {found : Scan}
    (hfound : found = Scan.whole terminator (data.scannable (c.pos / 8) max (ctx.room c.pos)))
    (hnone : found.consumed = 0) (hmax : max ≠ some 0) :
    Refuses I (d.takeTerminatedBy width ctx terminator max) c
      { cause := nothingThere (ctx.room c.pos) (c.pos / 8) terminator.size } := by
  have hscan := scanBy_whole hserves hc hunit hword hdata ctx hwidth max
  rw [← hfound] at hscan
  have hfails : ¬ (found.consumed ≠ 0 ∨ max = some 0) := by
    rintro (h | h)
    · exact h hnone
    · exact hmax h
  unfold takeTerminatedBy
  change Refuses I (d.scanBy width terminator (c.pos / 8) _ _ #[] >>= _) c _
  exact hscan.refuses_bind fun c' => Reader.require_not hfails

end

/-- **The bytes before a terminator that is there can be taken**, and are followed by the
terminator. Nothing bounds the scan but the end of the data. -/
theorem takeTerminated_delivers (hserves : d.source.Serves data I) (hc : I c.source)
    (hlimit : ctx.limit = none) (hunit : terminator.size = 1 ∨ terminator.size = 2)
    (hdata : data.size < Word.modulus)
    (hfound : (Scan.whole terminator (Bytes.slice data (c.pos / 8) wholeSpace)).consumed ≠ 0)
    (hword : c.pos + 8 * (Scan.whole terminator
      (Bytes.slice data (c.pos / 8) wholeSpace)).consumed < Word.modulus) :
    Delivers I (d.takeTerminated ctx terminator none) c
      (Scan.whole terminator (Bytes.slice data (c.pos / 8) wholeSpace)).text
      (c.pos + 8 * (Scan.whole terminator
        (Bytes.slice data (c.pos / 8) wholeSpace)).consumed) := by
  have hroom : ctx.room c.pos = none := by
    unfold Context.room
    rw [hlimit]
    rfl
  have hbytes : Bytes.slice data (c.pos / 8) wholeSpace =
      data.scannable (c.pos / 8) none (ctx.room c.pos) := by
    rw [hroom, ← slice_scanCap hdata]
    rfl
  have hwidth : terminator.size ≤ window := by
    unfold window
    omega
  have htake := takeTerminatedBy_delivers hserves hc (by omega) (by omega) hdata ctx hwidth
    (congrArg (Scan.whole terminator) hbytes) (Or.inl hfound) hword
  rw [takeTerminated_eq_takeTerminatedBy d ctx hunit]
  exact htake

/-- **A scan in windows finds what there is to find.** Take the data from the cursor on, up to the
bound and as far as there is room. Where one of their units is the terminator, the bytes before the
first such unit are taken and the cursor is after it; otherwise all whole units are. If that brings
the cursor no further the run fails, unless the bound is zero: for want of room if no byte has room,
and else because the data end. The same is taken in windows of any width that holds a unit. A
position is a word, so the run overflows where the cursor would come to one that is none. -/
theorem takeTerminated_scans (hserves : d.source.Serves data I) (hc : I c.source)
    (hunit : terminator.size = 1 ∨ terminator.size = 2) (hword : c.pos < Word.modulus)
    (hdata : data.size < Word.modulus) (ctx : Context) (max : Option Nat) :
    let bytes := data.scannable (c.pos / 8) max (ctx.room c.pos)
    let found := Scan.whole terminator bytes
    Scan.Finds terminator bytes found ∧
      d.takeTerminated ctx terminator max = d.takeTerminatedBy window ctx terminator max ∧
      ∀ width, terminator.size ≤ width →
        (found.consumed ≠ 0 ∨ max = some 0 → c.pos + 8 * found.consumed < Word.modulus →
          Delivers I (d.takeTerminatedBy width ctx terminator max) c found.text
            (c.pos + 8 * found.consumed)) ∧
        (found.consumed ≠ 0 ∨ max = some 0 → Word.modulus ≤ c.pos + 8 * found.consumed →
          Refuses I (d.takeTerminatedBy width ctx terminator max) c { cause := .overflow }) ∧
        (found.consumed = 0 → max ≠ some 0 →
          Refuses I (d.takeTerminatedBy width ctx terminator max) c
            { cause := if ctx.room c.pos = some 0 then .overrun (c.pos / 8) terminator.size 0
                else .endOfInput (c.pos / 8) terminator.size 0 }) := by
  have hpos : 0 < terminator.size := by omega
  exact ⟨Scan.whole_finds hpos _, takeTerminated_eq_takeTerminatedBy d ctx hunit max,
    fun width hwidth => ⟨takeTerminatedBy_delivers hserves hc hpos hword hdata ctx hwidth rfl,
      takeTerminatedBy_overflows hserves hc hpos hword hdata ctx hwidth rfl,
      takeTerminatedBy_refuses hserves hc hpos hword hdata ctx hwidth rfl⟩⟩

/-! ## A terminator of two bytes

Two zeros that lie across two units do not end the text. -/

/-- A decoder of an empty grammar. -/
def emptyDecoder : Decoder Bytes where
  document := .ofParts "" {} #[] #[]
  source := .plain

/-- A byte, and then two characters in UTF-16. -/
def twoCharacters : Bytes := #[7, 0x61, 0, 0, 0x62, 0, 0, 7]

/-- The text is found, and where no byte has room there is nothing to find. -/
theorem takeTerminated_scans_pairs :
    (∃ c, emptyDecoder.takeTerminated {} #[0, 0] none { pos := 8, source := twoCharacters } =
        .ok #[0x61, 0, 0, 0x62] c ∧ c.pos = 56) ∧
    (∃ c, emptyDecoder.takeTerminated { limit := some 12 } #[0, 0] none
        { pos := 8, source := twoCharacters } = .error { cause := .overrun 1 2 0 } c ∧
      c.pos = 8) := by
  have hserves : emptyDecoder.source.Serves twoCharacters (· = twoCharacters) :=
    ByteSource.plain_serves _
  have hstart : Cursor.source { pos := 8, source := twoCharacters } = twoCharacters := rfl
  have hunit : Array.size (#[0, 0] : Bytes) = 1 ∨ Array.size (#[0, 0] : Bytes) = 2 := Or.inr rfl
  constructor
  · obtain ⟨_, hwindow, hrun⟩ := takeTerminated_scans hserves hstart hunit (by decide)
      (by decide) {} none
    obtain ⟨c', hrun, hpos, _⟩ := (hrun window (by decide)).1 (by decide) (by decide)
    rw [← hwindow] at hrun
    exact ⟨c', hrun, hpos⟩
  · obtain ⟨_, hwindow, hrun⟩ := takeTerminated_scans hserves hstart hunit (by decide)
      (by decide) { limit := some 12 } none
    obtain ⟨c', hrun, hpos, _⟩ := (hrun window (by decide)).2.2 (by decide) (by decide)
    rw [← hwindow] at hrun
    exact ⟨c', hrun, hpos⟩

end Decoder

end BinaryGrammar
