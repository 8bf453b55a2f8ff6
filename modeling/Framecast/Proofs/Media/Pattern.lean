/-
The frames of a test pattern are bundles of the size asked for.

How long a frame is gets computed twice: once as the size it should have, from the bitrate and
the limits, and once as the size of the bundle that is written.  `size_units` says that the two
agree, since what a frame holds besides its last unit is less than the smallest frame.  So
the buffer, which is resized to the bundle, is filled by it to the last byte, and what an
earlier frame left there is gone: a frame is the bundle of its units, whatever came before it.
-/
import Mathlib.Data.List.Induction
import Framecast.Media.Pattern
import Framecast.Proofs.Media.FrameBundle

namespace Framecast

namespace Pattern

/-! ### The size of a frame -/

theorem minFrame_le_frameSize (p : Pattern) : minFrame ≤ p.frameSize :=
  Nat.le_max_left _ _

theorem units_eq (p : Pattern) (id : Int32) :
    p.units id = [List.replicate 24 (fill id), List.replicate 8 (fill id),
      List.replicate (p.frameSize - 48) (fill id)] := by
  have hleast : 64 ≤ p.frameSize := p.minFrame_le_frameSize
  have hlast : max (p.frameSize - overhead) 1 = p.frameSize - 48 := by
    have hoverhead : overhead = 48 := rfl
    omega
  simp [units, leadSizes, hlast]

/-- **The bundle of a frame is as long as the frame should be.** -/
theorem size_units (p : Pattern) (id : Int32) : FrameBundle.size (p.units id) = p.frameSize := by
  have hleast : 64 ≤ p.frameSize := p.minFrame_le_frameSize
  simp only [units_eq, FrameBundle.size, List.flatten_cons, List.flatten_nil, List.length_append,
    List.length_replicate, List.length_cons, List.length_nil]
  omega

theorem fits_units {p : Pattern} (h : p.bitrate < UInt32.size) (id : Int32) :
    FrameBundle.Fits (p.units id) := by
  have hlimit : FrameBundle.fieldLimit = 4294967296 := rfl
  have hsize : UInt32.size = 4294967296 := rfl
  have hrate : p.bitrate / 8 / p.fps ≤ p.bitrate :=
    Nat.le_trans (Nat.div_le_self _ _) (Nat.div_le_self _ _)
  have hframe : p.frameSize < FrameBundle.fieldLimit := by
    unfold frameSize minFrame
    omega
  rw [units_eq]
  refine ⟨(by decide : 3 < FrameBundle.fieldLimit), ?_⟩
  simp only [List.forall_mem_cons, List.length_replicate]
  exact ⟨by omega, by omega, by omega, fun u hu => absurd hu List.not_mem_nil⟩

/-- A unit is filled with the lowest byte of its number. -/
theorem toNat_fill (id : Int32) : ((fill id).toNat : Int) = id.toInt % 256 := by
  have hfill : (fill id).toNat = id.toBitVec.toNat % 256 := by
    rw [fill, UInt8.toNat_ofNat']
    rfl
  have hint : id.toInt = id.toBitVec.toInt := rfl
  rw [hfill, hint, BitVec.toInt_eq_toNat_cond]
  split <;> omega

/-! ### One frame -/

theorem length_resize (n : Nat) (buffer : Bytes) : (resize n buffer).length = n := by
  rw [resize, List.length_append, List.length_take, List.length_replicate]
  omega

/-- **A frame is the bundle of its units, whatever the buffer held before.** -/
theorem video_eq {p : Pattern} (h : p.bitrate < UInt32.size) :
    p.video = (.ok (p.nextVideo, FrameBundle.encode (p.units p.nextVideo)),
      { p with
        nextVideo := p.nextVideo + 1
        buffer := FrameBundle.encode (p.units p.nextVideo) }) := by
  have hlength := length_resize (FrameBundle.size (p.units p.nextVideo)) p.buffer
  have hwritten := FrameBundle.write_of_fits (Nat.le_of_eq hlength.symm) (fits_units h p.nextVideo)
  have hfilled : (FrameBundle.encode (p.units p.nextVideo)).take
      (FrameBundle.size (p.units p.nextVideo)) = FrameBundle.encode (p.units p.nextVideo) :=
    List.take_of_length_le (Nat.le_of_eq (FrameBundle.length_encode _))
  rw [List.drop_of_length_le (Nat.le_of_eq hlength), List.append_nil] at hwritten
  simp only [video, hwritten, Except.map, hfilled]

/-! ### Whole runs -/

/-- What is done to a source. -/
inductive Call where
  /-- The bitrate changes. -/
  | setBitrate (bitrate : UInt32)
  | video
  | audio
  deriving DecidableEq

/-- The source after a call. -/
def after (p : Pattern) : Call → Pattern
  | .setBitrate bitrate => { p with bitrate := bitrate.toNat }
  | .video => p.video.2
  | .audio => p.audio.2

/-- The source after some calls. -/
def run (p : Pattern) (calls : List Call) : Pattern :=
  calls.foldl after p

/-- The bitrate after some calls, the one set last. -/
def lastBitrate (bitrate : UInt32) (calls : List Call) : UInt32 :=
  calls.foldl (fun b c => match c with | .setBitrate b => b | _ => b) bitrate

/-- What is known of a source after some calls. -/
structure Reached (p : Pattern) (fps maxFrame : Nat) (bitrate : UInt32) (calls : List Call) :
    Prop where
  fps_eq : p.fps = max fps 1
  maxFrame_eq : p.maxFrame = max maxFrame minFrame
  bitrate_eq : p.bitrate = (lastBitrate bitrate calls).toNat
  nextVideo_eq : p.nextVideo = Int32.ofNat (calls.count .video)
  nextAudio_eq : p.nextAudio = Int32.ofNat (calls.count .audio)

namespace Reached

variable {p : Pattern} {fps maxFrame : Nat} {bitrate : UInt32} {calls : List Call}

theorem start (fps maxFrame : Nat) (bitrate : UInt32) :
    (Pattern.start fps bitrate.toNat maxFrame).Reached fps maxFrame bitrate [] where
  fps_eq := rfl
  maxFrame_eq := rfl
  bitrate_eq := rfl
  nextVideo_eq := rfl
  nextAudio_eq := rfl

theorem bitrate_lt (h : p.Reached fps maxFrame bitrate calls) : p.bitrate < UInt32.size := by
  rw [h.bitrate_eq]
  exact UInt32.toNat_lt _

/-- Video and audio are numbered by themselves, and only setting it changes the bitrate. -/
theorem after (h : p.Reached fps maxFrame bitrate calls) (c : Call) :
    (p.after c).Reached fps maxFrame bitrate (calls ++ [c]) := by
  have hrate : lastBitrate bitrate (calls ++ [c]) =
      match c with | .setBitrate b => b | _ => lastBitrate bitrate calls := by
    rw [lastBitrate, List.foldl_append]
    cases c <;> rfl
  cases c with
  | setBitrate b =>
      refine ⟨h.fps_eq, h.maxFrame_eq, by rw [hrate]; rfl, ?_, ?_⟩
      · simpa [Pattern.after] using h.nextVideo_eq
      · simpa [Pattern.after] using h.nextAudio_eq
  | video =>
      rw [Pattern.after, video_eq h.bitrate_lt]
      refine ⟨h.fps_eq, h.maxFrame_eq, by rw [hrate]; exact h.bitrate_eq, ?_, ?_⟩
      · simp [h.nextVideo_eq, Int32.ofNat_add]
      · simpa using h.nextAudio_eq
  | audio =>
      refine ⟨h.fps_eq, h.maxFrame_eq, by rw [hrate]; exact h.bitrate_eq, ?_, ?_⟩
      · simpa [Pattern.after, audio] using h.nextVideo_eq
      · simp [Pattern.after, audio, h.nextAudio_eq, Int32.ofNat_add]

theorem run (h : p.Reached fps maxFrame bitrate []) (calls : List Call) :
    (p.run calls).Reached fps maxFrame bitrate calls := by
  induction calls using List.reverseRecOn with
  | nil => exact h
  | append_singleton calls c ih =>
      rw [Pattern.run, List.foldl_append]
      exact ih.after c

theorem frameSize_eq (h : p.Reached fps maxFrame bitrate calls) :
    p.frameSize =
      max 64 (min ((lastBitrate bitrate calls).toNat / 8 / max fps 1) (max maxFrame 64)) := by
  rw [frameSize, h.bitrate_eq, h.fps_eq, h.maxFrame_eq]
  rfl

end Reached

/-- **Every frame of a test pattern is a bundle of the size asked for.**  Whatever was called
before, the next frame is made, and

* it bears the number of the frames made before it, wrapped round, and so does an audio chunk
  with the chunks before it;
* it is as long as the bitrate set last says, within the limits;
* it is the bundle of three units, filled with the lowest byte of its number, and nothing else,
  though the buffer it is written into may have held a longer one.
-/
theorem frames_are_bundles (fps maxFrame : Nat) (bitrate : UInt32) (calls : List Call) :
    let p := (start fps bitrate.toNat maxFrame).run calls
    let id := Int32.ofNat (calls.count .video)
    let chunk := Int32.ofNat (calls.count .audio)
    ∃ (frame : Bytes) (b : UInt8),
      p.video.1 = .ok (id, frame) ∧ p.audio.1 = (chunk, List.replicate chunkSize (fill chunk)) ∧
      frame.length = p.frameSize ∧
      p.frameSize =
        max 64 (min ((lastBitrate bitrate calls).toNat / 8 / max fps 1) (max maxFrame 64)) ∧
      64 ≤ p.frameSize ∧ p.frameSize ≤ max 64 maxFrame ∧
      (b.toNat : Int) = id.toInt % 256 ∧
      FrameBundle.extract frame = .ok [List.replicate 24 b, List.replicate 8 b,
        List.replicate (p.frameSize - 48) b] ∧
      frame = FrameBundle.encode [List.replicate 24 b, List.replicate 8 b,
        List.replicate (p.frameSize - 48) b] := by
  intro p id chunk
  have h : p.Reached fps maxFrame bitrate calls := (Reached.start fps maxFrame bitrate).run calls
  have hsize := h.frameSize_eq
  have hextract := FrameBundle.extract_encode_append (fits_units h.bitrate_lt id) []
  rw [List.append_nil] at hextract
  refine ⟨FrameBundle.encode (p.units id), fill id, ?_, ?_, ?_, hsize, p.minFrame_le_frameSize,
    by omega, toNat_fill id, ?_, ?_⟩
  · rw [video_eq h.bitrate_lt, h.nextVideo_eq]
  · rw [audio, h.nextAudio_eq]
  · rw [FrameBundle.length_encode, size_units]
  · rw [hextract, units_eq]
  · rw [units_eq]

/-- A small frame after a large one. -/
example : ((start 1 4000 1000).run [.video, .setBitrate 0]).video.1.toOption.map
    (fun f => f.2.length) = some 64 := by decide +kernel

end Pattern

end Framecast
