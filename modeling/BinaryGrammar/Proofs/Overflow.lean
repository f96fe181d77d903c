import Mathlib
import BinaryGrammar.Document.Load
import BinaryGrammar.Proofs.Confinement
import BinaryGrammar.Proofs.Reach
import BinaryGrammar.Proofs.Session
import BinaryGrammar.Script.Command

/-!
# Words that do not overflow

If all the bytes that a source has lie so far from the largest word that the bits of one more number
can still be counted, and neither seeks nor scripts lead beyond them, then no place that the decoder
works out is larger than a word and no difference is negative: no step of a session overflows. The
proofs go through the readers in the order of their definitions.

Without the condition on scripts this is not so, if the size of the source is unknown: what a script
covers is compared with the largest word in bytes, and only then counted in bits.
-/

set_option autoImplicit false

namespace BinaryGrammar

namespace Decoder

open ByteSource (InsideAt)
open Reader (Leads)

variable {σ : Type} {d : Decoder σ} {n : Nat} {I : σ → Prop} {ctx : Context} {c : Cursor σ}

section

variable (h : d.Confined n I) (hc : Placed n I c)
include h hc

/-! ## Bytes and bits -/

/-- Fetching moves nothing. -/
theorem fetch_exact {offset count : Nat} (hword : offset + count ≤ Word.modulus) :
    Exact n I c (d.fetch offset count) where
  ok := fun {bytes c'} hok => by
    have hpos := fetch_pos hok
    refine ⟨⟨(fetch_keeps h.stays _ _).ok hc.state hok, ?_⟩, Nat.le_of_eq hpos.symm⟩
    rw [hpos]
    exact hc.pos
  error := fun {f c'} herror => by
    have hstate := (fetch_keeps h.stays _ _).error hc.state herror
    have hsmall := d.source.readFullFrom_ne_overflow hword #[] c.source
    unfold fetch ByteSource.readFull at herror
    split at herror
    · cases herror
    · cases herror
      exact ⟨⟨hstate, hc.pos⟩, .of_cause nofun⟩
    · rename_i hover
      rw [hover] at hsmall
      exact absurd rfl hsmall

omit hc in
/-- The next chunk begins inside, so its end is a word. -/
theorem fetchChunks_exact {offset count : Nat} (hoffset : offset ≤ n) : ∀ (chunks : Nat)
    {got : Bytes} {c : Cursor σ}, Placed n I c → InsideAt n offset got →
    Exact n I c (d.fetchChunks offset count chunks got)
  | 0, got, c, hc, _ => .pure hc got
  | chunks + 1, got, c, hc, hgot => by
      have hplace : offset + got.size ≤ n := by
        rcases hgot with hnone | hin
        · omega
        · exact hin
      unfold fetchChunks
      split
      · have hchunk := h.chunk_lt
        refine (fetch_exact h hc (by omega)).bind fun more c' hmore hc' _ => ?_
        have hnext : InsideAt n offset (got ++ more) :=
          hgot.append (fetch_yields h.yields hc.state hmore)
        dsimp only
        split
        · exact .pure hc' _
        · exact fetchChunks_exact hoffset chunks hc' hnext
      · exact .pure hc got

theorem take_exact (ctx : Context) (i count : Nat) : Exact n I c (d.take ctx i count) := by
  have hword := h.word
  have hpos := hc.pos
  unfold take
  refine .aligned_bind hc fun hal => .pos_bind ?_
  refine .quiet_bind hc (.requireRoom ..) fun _ _ => ?_
  refine (fetchChunks_exact h (by omega) _ hc (Or.inl rfl)).bind fun bytes c' hfetch hc' _ => ?_
  have hsame := fetchChunks_pos _ hfetch
  have hin := fetchChunks_yields h.yields _ hfetch hc.state (Or.inl rfl)
  split
  · refine .of_error _ _ rfl ⟨hc', nofun, ?_⟩
    -- what there is of the bytes lies inside
    intro part hpart
    unfold shortfall at hpart
    dsimp only at hpart
    split at hpart
    · cases hpart
    · rename_i hsome
      cases hpart
      exact hin.resolve_left hsome
  · -- all bytes are there, so that their number is small
    have hstop : c.pos + count * 8 ≤ 8 * n := by
      rcases hin with hnone | hin
      · omega
      · omega
    exact .word_bind (by omega) (.moveTo_bind (by omega) (.pure (hc'.moved hstop) bytes))

theorem takeBits_exact {count : Nat} (hcount : count ≤ 64) (ctx : Context) :
    Exact n I c (d.takeBits ctx count) := by
  have hword := h.word
  have hpos := hc.pos
  unfold takeBits
  refine .pos_bind (.word_bind (by omega) ?_)
  refine .quiet_bind hc (.requireBits ..) fun _ _ => ?_
  unfold Word.bytesOfBits
  refine (fetch_exact h hc (by omega)).bind fun bytes c' hfetch hc' _ => ?_
  refine .require_bind hc' nofun fun hneeded => ?_
  have hsame := fetch_pos hfetch
  -- if any bytes are needed they are there
  have hstop : c.pos + count ≤ 8 * n := by
    rcases fetch_yields h.yields hc.state hfetch with hnone | hin
    · omega
    · omega
  exact .moveTo_bind (by omega) (.pure (hc'.moved hstop) _)

theorem takeInteger_exact (ctx : Context) (i bits : Nat) (big : Bool) :
    Exact n I c (d.takeInteger ctx i bits big) := by
  unfold takeInteger
  refine .require_bind hc nofun fun hbits => .pos_bind ?_
  split
  · exact (take_exact h hc ..).bind fun _ _ _ hc' _ => .pure hc' _
  · exact takeBits_exact h hc hbits.2 ctx

omit hc in
theorem scan_exact {terminator : Bytes} {offset cap : Nat} (hoffset : offset ≤ n) :
    ∀ (windows : Nat) {text : Bytes} {c : Cursor σ}, Placed n I c → InsideAt n offset text →
    text.size ≤ cap → Exact n I c (d.scan terminator offset cap windows text)
  | 0, text, c, hc, _, _ => .pure hc _
  | windows + 1, text, c, hc, htext, hcap => by
      have hword := h.word
      have hplace : offset + text.size ≤ n := by
        rcases htext with hnone | hin
        · omega
        · exact hin
      unfold scan
      dsimp only
      refine .require_of hcap ?_
      split
      · exact .pure hc _
      · have hchunk := h.chunk_lt
        have hwindow : window ≤ chunk := by decide
        refine (fetch_exact h hc (by omega)).bind fun got c' hgot hc' _ => ?_
        have hsize := fetch_size_le hgot
        have hin := fetch_yields h.yields hc.state hgot
        -- all that has been looked through lies inside, so its size is a word
        have hgotword : text.size + got.size < Word.modulus := by
          rcases hin with hnone | hin
          · omega
          · omega
        have hunits := Nat.div_mul_le_self got.size terminator.size
        cases hfind : got.findUnit? terminator.size (got.size / terminator.size)
            (· == terminator) with
        | some i =>
            have hunit := findUnit?_le hfind
            exact .word_bind (by omega) (.pure hc' _)
        | none =>
            refine .word_bind (by omega) ?_
            split
            · exact .pure hc' _
            · refine scan_exact hoffset windows hc' (htext.append hin.extract) ?_
              rw [Array.size_append, Array.size_extract]
              omega

theorem takeTerminated_exact (hal : c.pos % 8 = 0) (ctx : Context) (terminator : Bytes)
    (max : Option Nat) : Exact n I c (d.takeTerminated ctx terminator max) := by
  have hword := h.word
  have hpos := hc.pos
  unfold takeTerminated
  refine .pos_bind ?_
  refine (scan_exact h (by omega) _ hc (Or.inl rfl) (Nat.zero_le _)).bind
    fun found c' hscan hc' _ => ?_
  have hcause : nothingThere (ctx.room c.pos) (c.pos / 8) terminator.size ≠ .overflow := by
    unfold nothingThere
    split
    · exact nofun
    · exact nofun
  refine .require_bind hc' hcause fun _ => ?_
  have hsame := (scan_consumed_le _ hscan (Nat.zero_le _)).2
  -- a terminator that is found, or what stands in its place, ends inside
  have hstop : c.pos + found.consumed * 8 ≤ 8 * n := by
    rcases scan_inside h.yields _ hscan hc.state (Or.inl rfl) with hnone | hin
    · omega
    · omega
  exact .word_bind (by omega) (.moveTo_bind (by omega) (.pure (hc'.moved hstop) _))

/-! ## Fields -/

theorem finishLeaf_exact {start : Nat} (hstart : start ≤ c.pos) (i : Nat) (payload : Payload) :
    Exact n I c (finishLeaf i start payload) := by
  have hword := h.word
  have hpos := hc.pos
  unfold finishLeaf
  exact .pos_bind (.word_bind (by omega) (.require_of hstart (.pure hc _)))

theorem readNothing_exact (i : Nat) : Exact n I c (readNothing i) :=
  .pos_bind (finishLeaf_exact h hc (Nat.le_refl _) i .none)

/-- A field that is not accepted is salvaged. -/
theorem finish_match_exact {start : Nat} (hstart : start ≤ c.pos) (i : Nat) (payload : Payload)
    (accepts : Value → Bool) :
    Exact n I c (finishLeaf i start payload >>= fun v => d.requireMatch i (accepts v) v) := by
  have hpos := hc.pos
  refine (finishLeaf_exact h hc hstart i payload).bind fun v c' hleaf hc' _ => ?_
  have hv : v.stop ≤ n := by
    obtain ⟨rfl, _⟩ := finishLeaf_ok hleaf
    change start / 8 + ((c.pos + 7) / 8 - start / 8) ≤ n
    omega
  unfold requireMatch
  split
  · refine .of_error _ _ rfl ⟨hc', nofun, ?_⟩
    intro part hpart
    cases hpart
    exact hv
  · exact .pure hc' v

theorem takeNumber_exact (ctx : Context) (i bits : Nat) (big : Bool) :
    Exact n I c (d.takeNumber ctx i bits big) := by
  unfold takeNumber
  cases d.document.numberType i with
  | integer => exact (takeInteger_exact h hc ..).bind fun _ _ _ hc' _ => .pure hc' _
  | float =>
      exact .require_bind hc nofun fun _ => (take_exact h hc ..).bind fun _ _ _ hc' _ => .pure hc' _

theorem readNumber_exact (ctx : Context) (i : Nat) (body : NumberBody) :
    Exact n I c (d.readNumber ctx i body) :=
  .pos_bind (.ofExcept_bind hc (lengthBits_calculates ..) fun _ =>
    .ofExcept_bind hc (bigEndian_calculates ..) fun _ =>
      (takeNumber_exact h hc ..).bind fun _ _ _ hc' hle => finish_match_exact h hc' hle ..)

theorem readOffset_exact (ctx : Context) (i : Nat) : Exact n I c (d.readOffset ctx i) :=
  .pos_bind (.ofExcept_bind hc (lengthBits_calculates ..) fun _ =>
    .ofExcept_bind hc (bigEndian_calculates ..) fun _ =>
      (takeInteger_exact h hc ..).bind fun _ _ _ hc' hle => finishLeaf_exact h hc' hle ..)

theorem readBinary_exact (ctx : Context) (i : Nat) (body : BinaryBody) :
    Exact n I c (d.readBinary ctx i body) :=
  .pos_bind (.ofExcept_bind hc (lengthBytes_calculates ..) fun _ =>
    (take_exact h hc ..).bind fun _ _ _ hc' hle => finish_match_exact h hc' hle ..)

theorem takeDelimited_exact (hal : c.pos % 8 = 0) (ctx : Context) (i : Nat) (terminator : Bytes) :
    Exact n I c (d.takeDelimited ctx i terminator) :=
  .ofExcept_bind hc (lengthBytes?_calculates ..) fun _ => takeTerminated_exact h hc hal ..

theorem takeString_exact (hal : c.pos % 8 = 0) (ctx : Context) (i : Nat) (body : StringBody)
    (encoding : Option Text.Encoding) : Exact n I c (d.takeString ctx i body encoding) := by
  unfold takeString
  cases d.document.stringType i with
  | fixedLength =>
      exact .ofExcept_bind hc (lengthBytes_calculates ..) fun _ =>
        (take_exact h hc ..).bind fun _ _ _ hc' _ => .pure hc' _
  | pascal =>
      exact .ofExcept_bind hc (lengthBytes_calculates ..) fun _ => .require_bind hc nofun fun _ =>
        .ofExcept_bind hc (bigEndian_calculates ..) fun _ =>
          (take_exact h hc ..).bind fun _ _ _ hc' _ => take_exact h hc' ..
  | zeroTerminated => exact takeDelimited_exact h hc hal ..
  | delimiterTerminated => exact takeDelimited_exact h hc hal ..

theorem readString_exact (ctx : Context) (i : Nat) (body : StringBody) :
    Exact n I c (d.readString ctx i body) :=
  .aligned_bind hc fun hal => .pos_bind ((takeString_exact h hc hal ..).bind fun _ _ _ hc' hle =>
    .ofExcept_bind hc' (decodeText_calculates ..) fun _ => finish_match_exact h hc' hle ..)

/-! ## Fields of scripts -/

theorem runScript_exact (request : ScriptRequest) : Exact n I c (d.runScript request) where
  ok := fun {out c'} hok => by
    have hstate := (runScript_keeps h.scripts request).ok hc.state hok
    unfold runScript at hok
    split at hok
    · cases hok
      exact ⟨⟨hstate, hc.pos⟩, Nat.le_refl _⟩
    · cases hok
  error := fun {f c'} herror => by
    have hstate := (runScript_keeps h.scripts request).error hc.state herror
    unfold runScript at herror
    split at herror
    · cases herror
    · cases herror
      exact ⟨⟨hstate, hc.pos⟩, .of_cause nofun⟩

/-- What a script covers lies inside, as the source says or because scripts cover nothing else. -/
theorem acceptScript_exact {start : Nat} {out : ScriptValue} (hstart : c.pos = start)
    (hal : start % 8 = 0)
    (hout : d.source.size c.source = none → start / 8 + out.length ≤ n) (ctx : Context) (i : Nat) :
    Exact n I c (d.acceptScript ctx i start out) := by
  have hword := h.word
  unfold acceptScript
  cases hadd : Word.add? (start / 8) out.length with
  | none => exact .quiet hc (.fail nofun)
  | some stop =>
      have hsum : start / 8 + out.length = stop := by
        unfold Word.add? at hadd
        split at hadd
        · exact Option.some.inj hadd
        · cases hadd
      refine .quiet_bind hc (.requireInside ..) fun _ _ => .size_bind ?_
      refine .quiet_bind hc (.requireData ..) fun _ hdata => ?_
      -- the size has been compared with, and without one scripts are confined
      have hstop : stop ≤ n := by
        cases hsize : d.source.size c.source with
        | none => exact hsum ▸ hout hsize
        | some m =>
            have hle := ((requireData_checks ..).ok hdata).1 m hsize
            exact Nat.le_trans hle (h.size hc.state hsize)
      refine .word_bind (by omega) (.moveTo_bind (by omega) ?_)
      refine finishLeaf_exact h (hc.moved (by omega)) ?_ ..
      dsimp only
      omega

theorem readCustom_exact (ctx : Context) (i : Nat) (body : CustomBody) :
    Exact n I c (d.readCustom ctx i body) := by
  unfold readCustom
  refine .aligned_bind hc fun hal => ?_
  cases body.script.bind (·.target) with
  | none => exact .quiet hc (.fail nofun)
  | some script =>
      refine .pos_bind (.ofExcept_bind hc (lengthBytes?_calculates ..) fun hint => ?_)
      refine (runScript_exact h hc _).bind fun out c' hrun hc' _ => ?_
      unfold runScript at hrun
      split at hrun
      · rename_i out' s hscript
        cases hrun
        -- a script of the document was run, at a byte inside
        have hpos := hc.pos
        exact acceptScript_exact h hc' rfl hal
          (h.covered hc.state (by dsimp only; omega) ⟨script, rfl⟩ hscript) ctx i
      · cases hrun

/-! ## The end of a structure -/

theorem requireStop_exact {stop : Nat} (hal : stop % 8 = 0) (hstop : stop < Word.modulus) :
    Exact n I c (d.requireStop c.pos stop) := by
  have hword := h.word
  have hpos := hc.pos
  unfold requireStop
  refine .size_bind ?_
  cases d.source.size c.source with
  | some m => exact .quiet hc (.require _ fun hover => by cases hover)
  | none =>
      refine .word_bind (by omega) ?_
      dsimp only
      unfold Word.alignUp Word.bytesOfBits
      split
      · refine .require_of (by omega) ?_
        refine (fetch_exact h hc (by omega)).bind fun _ _ _ hc' _ => ?_
        exact .quiet hc' (.require _ fun hover => by cases hover)
      · exact .pure hc ()

/-- The end of a structure that has been checked lies inside. -/
theorem requireStop_le {stop : Nat} (hal : stop % 8 = 0) {u : Unit}
    {c' : Cursor σ} (hok : d.requireStop c.pos stop c = .ok u c') : stop ≤ 8 * n := by
  have hpos := hc.pos
  cases hsize : d.source.size c.source with
  | some m =>
      have hle := (requireStop_ok hok).2.1 m hsize
      have hm := h.size hc.state hsize
      unfold Word.mulSaturating at hle
      omega
  | none =>
      rcases requireStop_untold hsize hok with hup | ⟨bytes, c₁, hfetch, hsome⟩
      · unfold Word.alignUp Word.bytesOfBits at hup
        omega
      · have hin := (fetch_yields h.yields hc.state hfetch).resolve_left hsome
        omega

/-- Going to the end of a structure leads to a place inside, which may lie before the cursor but not
before the structure. -/
theorem finish_exact {start : Nat} {extent : Extent} (hstart : start ≤ c.pos)
    (hproper : ProperExtent start extent) (hal : start % 8 = 0) (outer : Context) :
    Leads (fun _ c' => Placed n I c' ∧ start ≤ c'.pos) (fun f c' => Placed n I c' ∧ f.Tame n) c
      (d.finish outer extent) := by
  have hword := h.word
  have hpos := hc.pos
  have hopen : Exact n I c (Reader.ensureAligned >>= fun _ => (pure [] : Reader σ (List Value))) :=
    .aligned_bind hc fun _ => .pure hc []
  cases extent with
  | pending => exact hopen.not_before hstart
  | unbounded => exact hopen.not_before hstart
  | fixed stop =>
      obtain ⟨hle, hstop, hwhole⟩ := hproper stop rfl
      have hstop8 : stop % 8 = 0 := by omega
      -- an end that is a whole number of bytes leaves room for rounding up
      have hgap : stop - c.pos + 7 < Word.modulus := by
        unfold Word.modulus at *
        omega
      have hchecks := requireStop_exact h hc hstop8 hstop
      refine Leads.congr ?_ (Reader.pos_bind.trans (Reader.requireWord_of hgap))
      refine .bind (fun _ hok => hok) ((Exact.quiet hc (.requireOuter ..)).not_before hstart)
        fun _ c₁ houter => ?_
      rw [(Quiet.requireOuter ..).ok houter]
      refine .bind (fun _ hok => hok) (hchecks.not_before hstart) fun _ c₂ hchecked => ?_
      have hin := requireStop_le h hc hstop8 hchecked
      exact .of_ok _ _ ((Reader.requireWord_of (by omega)).trans Reader.moveTo_bind)
        ⟨(hchecks.ok hchecked).1.moved hin, hle⟩

end

/-! ## Structures -/

/-- The cursor of a structure that is being read stands where the bytes are and not before the
structure, whose end is proper once it is settled. -/
structure FieldsPlaced (n : Nat) (I : σ → Prop) (start : Nat) (p : Progress σ) : Prop where
  placed : Placed n I p.cursor
  start_le : start ≤ p.cursor.pos
  proper : ProperExtent start p.extent

/-- What is exact for readers of fields. -/
abbrev ExactFields {α : Type} (n : Nat) (I : σ → Prop) (start : Nat) (p : Progress σ)
    (x : FieldReader σ α) : Prop :=
  Leads (fun p p' => FieldsPlaced n I start p' ∧ p.cursor.pos ≤ p'.cursor.pos)
    (fun f p' => Placed n I p'.cursor ∧ f.Tame n) p x

variable {outer : Context} {i start child : Nat} {p : Progress σ}

namespace ExactFields

variable {α β : Type}

theorem pure (hp : FieldsPlaced n I start p) (a : α) : ExactFields n I start p (Pure.pure a) :=
  Leads.pure a ⟨hp, Nat.le_refl _⟩

theorem bind {x : FieldReader σ α} {f : α → FieldReader σ β} (hx : ExactFields n I start p x)
    (hf : ∀ a p', x p = .ok a p' → FieldsPlaced n I start p' → p.cursor.pos ≤ p'.cursor.pos →
      ExactFields n I start p' (f a)) : ExactFields n I start p (x >>= f) :=
  Leads.bind (fun h h' => ⟨h'.1, Nat.le_trans h.2 h'.2⟩) hx fun a p' h =>
    hf a p' h (hx.ok h).1 (hx.ok h).2

end ExactFields

theorem bound_exact (hp : FieldsPlaced n I start p) (e : Expression) :
    ExactFields n I start p (d.bound outer e) where
  ok := fun hok => by
    rw [(bound_ok hok).2]
    exact ⟨hp, Nat.le_refl _⟩
  error := fun herror => by
    unfold bound at herror
    split at herror
    · cases herror
    · rename_i heval
      cases herror
      exact ⟨hp.placed, .of_cause ((evaluate_calculates ..).error heval).ne_overflow⟩

/-- How much has been read is told where a structure cannot end, and is a word. -/
theorem stopOf_tame {pos length : Nat} {cause : Cause} (hword : pos + 7 < Word.modulus)
    (h : stopOf start pos length = .error cause) : cause ≠ .overflow := by
  unfold stopOf at h
  split at h
  · cases h
    exact nofun
  · split at h
    · cases h
      unfold Cause.through
      rw [if_pos (by omega)]
      exact nofun
    · cases h

section

variable (h : d.Confined n I)
include h

theorem settle_exact (hp : FieldsPlaced n I start p) (last : Bool) :
    ExactFields n I start p (d.settle outer i start last) where
  ok := fun hok => by
    have hsettles := settle_ok hok
    have hcursor := hsettles.cursor
    refine ⟨⟨?_, ?_, hsettles.proper hp.proper⟩, ?_⟩
    · rw [hcursor]
      exact hp.placed
    · rw [hcursor]
      exact hp.start_le
    · exact Nat.le_of_eq (by rw [hcursor])
  error := fun {f p'} herror => by
    have hword := h.word
    have hpos := hp.placed.pos
    obtain ⟨hbare, rfl⟩ := settle_bare herror
    refine ⟨hp.placed, ?_, .of_none hbare.salvage⟩
    unfold settle at herror
    split at herror
    · split at herror
      · cases herror
      · split at herror
        · cases herror
        · rename_i hstop
          cases herror
          exact stopOf_tame (by omega) hstop
      · rename_i hbits
        split at herror
        · cases herror
        · cases herror
          exact ((extentBits?_calculates ..).error hbits).ne_overflow
    · cases herror

variable {read : ElementReader σ}
  (hread : ∀ ctx i {c : Cursor σ}, Placed n I c → Exact n I c (read ctx i))
include hread

theorem attempt_exact (hp : FieldsPlaced n I start p) (enough : Bool) :
    ExactFields n I start p (d.attempt read outer i start child enough) := by
  have hexact := hread (p.context outer) child hp.placed
  cases hresult : read (p.context outer) child p.cursor with
  | ok v c' =>
      -- an instance was read, and the end is settled once more
      obtain ⟨hc', hle⟩ := hexact.ok hresult
      have hpushed : FieldsPlaced n I start (Progress.push { p with cursor := c' } d.document v) :=
        ⟨hc', Nat.le_trans hp.start_le hle, hp.proper⟩
      have hsettle : ExactFields n I start _ (d.settle outer i start false) :=
        settle_exact h hpushed false
      cases hsettled : d.settle outer i start false
          (Progress.push { p with cursor := c' } d.document v) with
      | ok u p' =>
          obtain ⟨hp', hle'⟩ := hsettle.ok hsettled
          refine .of_ok (if c'.pos = p.cursor.pos then .done else .more) p' ?_
            ⟨hp', Nat.le_trans hle hle'⟩
          unfold attempt
          rw [hresult]
          dsimp only
          rw [hsettled]
      | error f p' =>
          refine .of_error f p' ?_ (hsettle.error hsettled)
          unfold attempt
          rw [hresult]
          dsimp only
          rw [hsettled]
  | error f c' =>
      obtain ⟨hc', htame⟩ := hexact.error hresult
      by_cases hends : (enough && f.cause.endsRepetition) = true
      · -- the failure ends the repetition where it began
        refine .of_ok .done { p with cursor := { c' with pos := p.cursor.pos } } ?_
          ⟨⟨hc'.moved hp.placed.pos, hp.start_le, hp.proper⟩, Nat.le_refl _⟩
        unfold attempt
        rw [hresult]
        exact if_pos hends
      · refine .of_error f { p with cursor := c' } ?_ ⟨hc', htame⟩
        unfold attempt
        rw [hresult]
        exact if_neg hends

/-- Every instance but the last moves the cursor, so there are no more of them than there are
bits. -/
theorem readInstances_exact {least : Int} : ∀ (allowed count : Nat) {p : Progress σ},
    FieldsPlaced n I start p → count ≤ p.cursor.pos →
    ExactFields n I start p (d.readInstances read outer i start child least allowed count)
  | 0, _, p, hp, _ => .pure hp ()
  | allowed + 1, count, p, hp, hcount => by
      have hword := h.word
      have hpos := hp.placed.pos
      by_cases hroom : p.exhausted outer
      · refine (ExactFields.pure hp ()).congr ?_
        rw [readInstances]
        exact if_pos hroom
      · refine Leads.congr ?_ (readInstances_succ hroom)
        refine ExactFields.bind (attempt_exact h hread hp _) fun a p' hattempt hp' hle => ?_
        cases a with
        | done => exact .pure hp' ()
        | more =>
            dsimp only
            rw [if_pos (by omega)]
            refine readInstances_exact allowed (count + 1) hp' ?_
            -- there was an instance, and it has moved the cursor by a bit at least
            rcases attempt_ok hattempt with ⟨v, c', _, hsettles, hdone⟩ | ⟨hdone, _⟩
            · have hmoved : c'.pos ≠ p.cursor.pos := fun hsame => by cases hdone.mpr hsame
              have hcursor : p'.cursor.pos = c'.pos := by rw [hsettles.cursor]; rfl
              omega
            · cases hdone

theorem readElements_exact : ∀ (children : List Nat) {p : Progress σ}, FieldsPlaced n I start p →
    ExactFields n I start p (d.readElements read outer i start children)
  | [], p, hp => .pure hp ()
  | child :: rest, p, hp => by
      unfold readElements
      refine Leads.get_bind ?_
      split
      · exact ExactFields.pure hp ()
      · refine (bound_exact hp _).bind fun least p₁ _ hp₁ _ => ?_
        refine (bound_exact hp₁ _).bind fun most p₂ _ hp₂ _ => ?_
        exact (readInstances_exact h hread _ 0 hp₂ (Nat.zero_le _)).bind fun _ p₃ _ hp₃ _ =>
          readElements_exact rest hp₃

theorem readFields_exact (hp : FieldsPlaced n I start p) (children : List Nat) :
    ExactFields n I start p (d.readFields read outer i start children) :=
  (settle_exact h hp false).bind fun _ _ _ hp₁ _ =>
    (readElements_exact h hread children hp₁).bind fun _ _ _ hp₂ _ => settle_exact h hp₂ true

theorem readStructure_exact (hc : Placed n I c) (label : Nat) (body : StructBody) :
    Exact n I c (d.readStructure read outer label i body) := by
  have hword := h.word
  unfold readStructure
  refine .require_bind hc nofun fun _ => .aligned_bind hc fun hal => .pos_bind ?_
  have hopened : FieldsPlaced n I c.pos { cursor := c } :=
    ⟨hc, Nat.le_refl _, fun _ hfixed => by cases hfixed⟩
  have hfields : ExactFields n I c.pos { cursor := c }
      (d.readFields read outer i c.pos body.elements) :=
    readFields_exact h hread hopened body.elements
  cases hresult : d.readFields read outer i c.pos body.elements { cursor := c } with
  | error f p =>
      obtain ⟨hp, htame⟩ := hfields.error hresult
      refine .of_error _ _ ?_
        ⟨hp, htame.inStructure (by omega) hal hc.pos hp.pos label p.frame.values.toList⟩
      dsimp only
      rw [hresult]
  | ok u p =>
      obtain ⟨hp, _⟩ := hfields.ok hresult
      have hfinish := finish_exact h hp.placed hp.start_le hp.proper hal outer
      cases hfinished : d.finish outer p.extent p.cursor with
      | ok padding c' =>
          obtain ⟨hc', hle⟩ := hfinish.ok hfinished
          have hpos := hc'.pos
          refine .of_ok (structureValue label c.pos c'.pos (p.frame.values.toList ++ padding)) c' ?_
            ⟨hc', hle⟩
          dsimp only
          rw [hresult]
          dsimp only
          rw [hfinished]
          exact Reader.pos_bind.trans (Reader.requireWord_of (by omega))
      | error f c' =>
          obtain ⟨hc', htame⟩ := hfinish.error hfinished
          refine .of_error _ _ ?_
            ⟨hc', htame.inStructure (by omega) hal hc.pos hc'.pos label p.frame.values.toList⟩
          dsimp only
          rw [hresult]
          dsimp only
          rw [hfinished]

/-! ## Elements -/

theorem readTarget_exact (hc : Placed n I c) (ctx : Context) (i : Nat) (target : Option Nat)
    (attr : String) : Exact n I c (d.readTarget read ctx i target attr) := by
  unfold readTarget
  cases target with
  | none => exact .quiet hc (.fail nofun)
  | some t =>
      dsimp only
      cases (d.document.element t).body with
      | struct body => exact readStructure_exact h hread hc ..
      | _ => exact .quiet hc (.fail nofun)

theorem readBody_exact (hc : Placed n I c) (ctx : Context) (i : Nat) :
    Exact n I c (d.readBody read ctx i) := by
  unfold readBody
  cases (d.document.element i).body with
  | struct body => exact readStructure_exact h hread hc ..
  | number body => exact readNumber_exact h hc ..
  | string body => exact readString_exact h hc ..
  | binary body => exact readBinary_exact h hc ..
  | offset body => exact readOffset_exact h hc ..
  | structRef body =>
      dsimp only
      split
      · exact readNothing_exact h hc i
      · exact readTarget_exact h hread hc ..
  | grammarRef body =>
      dsimp only
      split
      · exact readNothing_exact h hc i
      · split
        · exact .quiet hc (.fail nofun)
        · exact readTarget_exact h hread hc ..
  | custom body => exact readCustom_exact h hc ..
  | script body => exact readNothing_exact h hc i
  | padding => exact .quiet hc (.fail nofun)

omit hread in
/-- **No read overflows**, on no level of nesting. -/
theorem readElement_exact : ∀ (levels : Nat) (ctx : Context) (i : Nat) {c : Cursor σ},
    Placed n I c → Exact n I c (d.readElement levels ctx i)
  | 0, ctx, i, c, hc => .of_error _ c rfl ⟨hc, nofun, .of_none rfl⟩
  | levels + 1, ctx, i, c, hc => by
      have hbody := readBody_exact h (readElement_exact levels) hc ctx i
      cases hresult : d.readBody (d.readElement levels) ctx i c with
      | ok v c' =>
          refine .of_ok v c' ?_ (hbody.ok hresult)
          unfold readElement
          rw [hresult]
      | error f c' =>
          -- a failed read puts the cursor back
          obtain ⟨hc', htame⟩ := hbody.error hresult
          refine .of_error (f.within (d.document.element i).name) { c' with pos := c.pos } ?_
            ⟨hc'.moved hc.pos, htame.cause, htame.salvaged⟩
          unfold readElement
          rw [hresult]

end

/-! ## Sessions -/

section

variable (h : d.Confined n I)
include h

theorem decode_exact (hc : Placed n I c) : Exact n I c d.decode := by
  unfold decode
  cases d.document.start with
  | none => exact .quiet hc (.fail nofun)
  | some i => exact readElement_exact h depthLimit {} i hc

omit h in
/-- A seek to a byte inside, or one that is refused. -/
theorem seek_exact (hc : Placed n I c) {offset : Nat}
    (hoffset : offset * 8 < Word.modulus → offset ≤ n) :
    Leads (fun _ c' => Placed n I c') (fun f c' => Placed n I c' ∧ f.Tame n) c (seek offset) := by
  unfold seek Word.mul?
  split
  · rename_i hmul
    split at hmul
    · rename_i hword
      cases hmul
      have hin := hoffset hword
      exact .of_ok () _ rfl (hc.moved (by omega))
    · cases hmul
  · exact .of_error _ c rfl ⟨hc, .of_cause nofun⟩

/-- A step that does not seek beyond the bytes leaves the cursor where they are, and does not
overflow. -/
theorem step_exact (hc : Placed n I c) {s : Step}
    (hseek : ∀ offset, s = .seek offset → offset * 8 < Word.modulus → offset ≤ n) :
    Leads (fun _ c' => Placed n I c') (fun f c' => Placed n I c' ∧ f.Tame n) c (d.step s) := by
  cases s with
  | seek offset =>
      have hexact := seek_exact hc (hseek offset rfl)
      exact hexact.bind (fun _ hok => hok) fun _ _ hok => .pure none (hexact.ok hok)
  | decode =>
      have hexact := (decode_exact h hc).placed
      exact hexact.bind (fun _ hok => hok) fun v _ hok => .pure (some v) (hexact.ok hok)
  | read i =>
      have hexact := (readElement_exact h depthLimit {} i hc).placed
      exact hexact.bind (fun _ hok => hok) fun v _ hok => .pure (some v) (hexact.ok hok)

/-- **Nothing overflows.** Where all bytes are far enough from the largest word, and neither seeks
nor scripts lead beyond them, no step of any session overflows: it ends with a value or with a
failure that says what is wrong with the data or the grammar. -/
theorem step_no_overflow {source : σ} (hsource : I source) (steps : List Step) (s : Step)
    (hseeks : ∀ offset, .seek offset ∈ s :: steps → offset * 8 < Word.modulus → offset ≤ n) :
    ∀ f c', d.step s (Machine.session d steps (.new source)).cursor = .error f c' →
      f.cause ≠ .overflow := by
  intro f c' herror
  have hsteps : ∀ t ∈ steps, Reader.Keeps (Placed n I) (d.step t) := by
    intro t ht
    have hin : ∀ offset, t = .seek offset → offset * 8 < Word.modulus → offset ≤ n :=
      fun offset hoffset => hseeks offset (hoffset ▸ List.mem_cons_of_mem _ ht)
    exact ⟨fun hc hok => (step_exact h hc hin).ok hok,
      fun hc herror => ((step_exact h hc hin).error herror).1⟩
  have hstart : Placed n I { source } := ⟨hsource, Nat.zero_le _⟩
  obtain ⟨c₁, hc₁, hsession⟩ := Machine.session_idle steps hsteps hstart
  change d.step s (Machine.session d steps { cursor := { source } }).cursor = .error f c' at herror
  rw [hsession] at herror
  have hexact := step_exact h hc₁ (s := s) fun offset hs => hseeks offset (hs ▸ List.mem_cons_self)
  exact (hexact.error herror).2.cause

end

/-- Scripts of one command touch the source only by reading from it. -/
theorem ScriptsStay.of_commands (hscripts : d.scripts = .commands) (hstays : d.source.Stays I) :
    d.ScriptsStay I := by
  intro request s hs
  have hlength : ∀ command : Command, I (command.length d.source request s).2 := by
    intro command
    cases command with
    | take count => exact hs
    | fail reason => exact hs
    | hint =>
        unfold Command.length
        cases request.hint with
        | none => exact hs
        | some count => exact hs
    | counted =>
        have hread := hstays.readFullFrom request.offset 1 #[] s rfl hs
        unfold Command.length ByteSource.readFull
        dsimp only
        split
        · rename_i bytes s' hok
          rw [hok] at hread
          split
          · exact hread
          · exact hread
        · rename_i reason s' herror
          rw [herror] at hread
          exact hread
  rw [hscripts]
  unfold ScriptEngine.commands
  dsimp only
  split
  · exact hs
  · rename_i command _
    have hs' := hlength command
    split
    · rename_i count s' hok
      rw [hok] at hs'
      exact hs'
    · rename_i reason s' herror
      rw [herror] at hs'
      exact hs'

end Decoder

/-! ## A script that covers too much

A structure of a field that a script decodes and a byte after it. The script covers so many bytes
that they can be counted, but not their bits. -/

/-- The grammar as it is written. -/
def Record.Document.boundless : Record.Document where
  grammar :=
    { start := "id:1"
      elements :=
        [.struct { id := 1 } {} [.custom {} { script := "s" }, .number {} { length := "1" }]]
      scripts := [{ name := "s", text := "take 2305843009213693953" }] }

/-- The grammar before it is linked. -/
def Document.boundless : Document :=
  .ofParts "" { start := some { reference := .id 1 }, elements := [2], scripts := [0] }
    #[{ body := .custom { script := some { reference := .name "s" } } },
      { body := .number { length := some (.constant 1) } },
      { ident := { id := 1 }, body := .struct { elements := [0, 1] } }]
    #[{ name := "s", text := "take 2305843009213693953" }]

theorem Document.load_boundless :
    (Document.load .boundless).value = Document.boundless.update.value ∧
      (Document.load .boundless).notes = Document.boundless.update.notes := by
  have hconstant : Expression.parse? "1" = some (.constant 1) := by decide +kernel
  have hfile {α : Type} :
      (Link.parse? "id:1" : Option (Link α)) = some { reference := .id 1 } := rfl
  have hmade : Document.ofRecord .boundless = { value := .boundless, notes := [] } := by
    unfold Document.ofRecord Record.Document.boundless
    simp only [Build.addElements, Build.addElement, Build.struct, Build.number, Build.custom,
      hconstant, hfile]
    rfl
  unfold load
  rw [Noted.value_bind, Noted.notes_bind, hmade]
  exact ⟨rfl, List.nil_append _⟩

namespace Decoder

/-- A decoder of data in memory with an engine for scripts. -/
def boundless (source : ByteSource Bytes) (scripts : ScriptEngine Bytes) : Decoder Bytes where
  document := (Document.load .boundless).value
  source
  scripts

/-- An engine that covers the byte at the offset, if it is there. -/
def oneByte : ScriptEngine Bytes where
  run _ request data := (.ok ⟨(Bytes.slice data request.offset 1).size, ""⟩, data)

/-- In data that do not tell their size a script that covers only what is there is confined. -/
theorem boundless_confined (data : Bytes) (hword : 8 * data.size + 72 ≤ Word.modulus) :
    (boundless .unsized oneByte).Confined data.size (· = data) where
  word := hword
  stays := fun hs hread => by
    cases hread
    exact hs
  inside := fun hs hread hne => by
    cases hread
    rw [← hs]
    exact ByteSource.slice_insideAt _ _ _ hne
  size := fun _ hsize => by cases hsize
  scripts := fun _ _ hs => hs
  covered := fun {request s s' out} hs hoffset _ hrun _ => by
    cases hrun
    cases hs
    by_cases hnone : (Bytes.slice data request.offset 1).size = 0
    · dsimp only
      omega
    · exact ByteSource.slice_insideAt _ _ _ hnone

/-- If the source tells its size the script fails, and if the script covers what is there the field
and the byte after it are read, wherever the cursor has been before. -/
theorem step_no_overflow_boundless :
    (∃ f c', (boundless .plain .commands).step .decode
        (Machine.session (boundless .plain .commands) [.seek 2305843009213693943, .seek 0]
          (.new #[1, 2])).cursor = .error f c' ∧ f.cause ≠ .overflow ∧
      f.cause = .endOfInput 0 2305843009213693953 2) ∧
    (∀ f c', (boundless .unsized oneByte).step .decode
        (Machine.session (boundless .unsized oneByte) [.seek 2, .seek 0] (.new #[1, 2])).cursor =
          .error f c' → f.cause ≠ .overflow) ∧
    ∃ v c', (boundless .unsized oneByte).step .decode
        (Machine.session (boundless .unsized oneByte) [.seek 2, .seek 0] (.new #[1, 2])).cursor =
          .ok v c' ∧ c'.pos = 16 := by
  refine ⟨?_, ?_, ?_⟩
  · have hsized : (boundless .plain .commands).source.Sized 2 (· = #[1, 2]) :=
      ByteSource.plain_sized #[1, 2]
    have hconfined : (boundless .plain .commands).Confined 2305843009213693943 (· = #[1, 2]) :=
      .of_sized hsized (.of_commands rfl hsized.stays) (by decide) (by decide)
    have hcause : (Reader.failure? ((boundless .plain .commands).step .decode)
          (Machine.session (boundless .plain .commands) [.seek 2305843009213693943, .seek 0]
            (.new #[1, 2])).cursor).map (·.cause) =
        some (.endOfInput 0 2305843009213693953 2) := by
      unfold boundless
      rw [Document.load_boundless.1]
      cbv
    obtain ⟨f, hf, hcause⟩ := Option.map_eq_some_iff.mp hcause
    obtain ⟨c', h⟩ := Reader.error_of_failure? hf
    exact ⟨f, c', h, step_no_overflow hconfined rfl [.seek 2305843009213693943, .seek 0] .decode
      (by simp) f c' h, hcause⟩
  · exact step_no_overflow (boundless_confined #[1, 2] (by decide)) rfl [.seek 2, .seek 0] .decode
      (by simp)
  · have hpos : (Reader.result? ((boundless .unsized oneByte).step .decode)
          (Machine.session (boundless .unsized oneByte) [.seek 2, .seek 0]
            (.new #[1, 2])).cursor).map (·.2.pos) = some 16 := by
      unfold boundless
      rw [Document.load_boundless.1]
      cbv
    obtain ⟨⟨v, c'⟩, hresult, hpos⟩ := Option.map_eq_some_iff.mp hpos
    exact ⟨v, c', Reader.ok_of_result? hresult, hpos⟩

/-- Otherwise the number of bits is no word, and the decoding overflows. -/
theorem decode_boundless : (Document.load .boundless).notes = [] ∧
    ∃ f c', (boundless .unsized .commands).step .decode { source := #[1, 2] } = .error f c' ∧
      f.cause = .overflow := by
  have hnotes : (Document.load .boundless).notes = [] := by
    rw [Document.load_boundless.2]
    cbv
  have hcause : (Reader.failure? ((boundless .unsized .commands).step .decode)
      { source := #[1, 2] }).map (·.cause) = some .overflow := by
    unfold boundless
    rw [Document.load_boundless.1]
    cbv
  obtain ⟨f, hf, hcause⟩ := Option.map_eq_some_iff.mp hcause
  obtain ⟨c', h⟩ := Reader.error_of_failure? hf
  exact ⟨hnotes, f, c', h, hcause⟩

end Decoder

end BinaryGrammar
