import CraftecCore.Library.ByteStream

/-!
# Wire — frames on a stream

A frame is its sequence id, a type byte, the length of the payload and the payload, integers in big
endian.  The reader takes exactly one frame off the stream, whatever chunks it arrives in, and the
limits of the reader and the writer are the same.  Timing and log lines are left out.
-/

namespace CraftecCore
namespace Network

open ByteStream

/-! ## The source functions -/

def maxFramePayload : ℕ := 50 * 1024 * 1024

structure RawFrame where
  seqId : UInt64
  msgType : UInt8
  payload : List UInt8
  deriving DecidableEq, Repr

def payloadTooLarge (len : ℕ) : IoError :=
  .invalidData
    ("Frame payload too large: " ++ toString len ++ " > " ++ toString maxFramePayload)

section Reader

variable {S : Type} [ByteSource S]

/-- The end of `read_raw_frame`, after the header. -/
def readPayload (seqId : UInt64) (msgType : UInt8) (len : ℕ) (io : S) :
    Except IoError RawFrame × S :=
  if maxFramePayload < len then
    (.error (payloadTooLarge len), io)
  else if len = 0 then
    (.ok { seqId := seqId, msgType := msgType, payload := [] }, io)
  else
    match readExact len io with
    | (.error err, io) => (.error err, io)
    | (.ok payload, io) => (.ok { seqId := seqId, msgType := msgType, payload := payload }, io)

def readRawFrame (io : S) : Except IoError RawFrame × S :=
  match readExact 8 io with
  | (.error err, io) => (.error err, io)
  | (.ok seqBytes, io) =>
      match readExact 1 io with
      | (.error err, io) => (.error err, io)
      | (.ok ty, io) =>
          match readExact 4 io with
          | (.error err, io) => (.error err, io)
          | (.ok lenBytes, io) =>
              readPayload (UInt64.ofBeBytes seqBytes) (ty.headD 0)
                (UInt32.ofBeBytes lenBytes).toNat io

/-- Read a number of frames; the first error ends the reading. -/
def readRawFrames : ℕ → S → Except IoError (List RawFrame) × S
  | 0, io => (.ok [], io)
  | count + 1, io =>
      match readRawFrame io with
      | (.error err, io) => (.error err, io)
      | (.ok frame, io) =>
          match readRawFrames count io with
          | (.error err, io) => (.error err, io)
          | (.ok frames, io) => (.ok (frame :: frames), io)

end Reader

section Writer

variable {S : Type} [ByteSink S]

/-- Write a raw frame, and flush.  The length of the payload is cast to 32 bits. -/
def writeRawFrame (seqId : UInt64) (msgType : UInt8) (payload : List UInt8) (io : S) :
    Except IoError Unit × S :=
  if maxFramePayload < payload.length then
    (.error (payloadTooLarge payload.length), io)
  else
    let buf :=
      seqId.beBytes ++ [msgType] ++ (UInt32.ofNat payload.length).beBytes ++ payload
    match writeAll buf io with
    | (.error err, io) => (.error err, io)
    | (.ok (), io) => (.ok (), ByteSink.flush io)

def writeRawFrames : List RawFrame → S → Except IoError Unit × S
  | [], io => (.ok (), io)
  | frame :: frames, io =>
      match writeRawFrame frame.seqId frame.msgType frame.payload io with
      | (.error err, io) => (.error err, io)
      | (.ok (), io) => writeRawFrames frames io

end Writer

/-! ## Headers -/

/-- The thirteen bytes before a payload. -/
def frameHeader (seqId : UInt64) (msgType : UInt8) (len : UInt32) : List UInt8 :=
  seqId.beBytes ++ ([msgType] ++ len.beBytes)

@[simp] theorem length_frameHeader (seqId : UInt64) (msgType : UInt8) (len : UInt32) :
    (frameHeader seqId msgType len).length = 13 := by
  simp [frameHeader]

/-- Every thirteen bytes are a header. -/
theorem exists_frameHeader {bytes : List UInt8} (h : 13 ≤ bytes.length) :
    ∃ seqId msgType len tail, bytes = frameHeader seqId msgType len ++ tail := by
  have hseq : (bytes.take 8).length = 8 := by
    rw [List.length_take]
    omega
  have hty : ((bytes.drop 8).take 1).length = 1 := by
    rw [List.length_take, List.length_drop]
    omega
  have hlen : ((bytes.drop 9).take 4).length = 4 := by
    rw [List.length_take, List.length_drop]
    omega
  rcases List.length_eq_one_iff.1 hty with ⟨msgType, hmsg⟩
  refine ⟨UInt64.ofBeBytes (bytes.take 8), msgType, UInt32.ofBeBytes ((bytes.drop 9).take 4),
    bytes.drop 13, ?_⟩
  rw [frameHeader, UInt64.beBytes_ofBeBytes hseq, UInt32.beBytes_ofBeBytes hlen, ← hmsg]
  calc bytes
      = bytes.take 8 ++ bytes.drop 8 := (List.take_append_drop 8 bytes).symm
    _ = bytes.take 8 ++ ((bytes.drop 8).take 1 ++ bytes.drop 9) := by
        rw [show bytes.drop 9 = (bytes.drop 8).drop 1 by rw [List.drop_drop],
          List.take_append_drop 1]
    _ = bytes.take 8 ++ ((bytes.drop 8).take 1 ++ ((bytes.drop 9).take 4 ++ bytes.drop 13)) := by
        rw [show bytes.drop 13 = (bytes.drop 9).drop 4 by rw [List.drop_drop],
          List.take_append_drop 4]
    _ = bytes.take 8 ++ ((bytes.drop 8).take 1 ++ (bytes.drop 9).take 4) ++ bytes.drop 13 := by
        simp only [List.append_assoc]

section Reading

variable {S : Type} [ByteSource S] {io : S}

open ByteSource

/-- A header that is there is read, whatever follows it. -/
theorem readRawFrame_header {seqId : UInt64} {msgType : UInt8} {len : UInt32}
    {tail : List UInt8} (h : rest io = frameHeader seqId msgType len ++ tail) :
    ∃ io', rest io' = tail ∧ readRawFrame io = readPayload seqId msgType len.toNat io' := by
  rw [frameHeader, List.append_assoc, List.append_assoc] at h
  rcases readExact_append _ _ io h with ⟨io₁, hrun₁, h₁⟩
  rcases readExact_append _ _ io₁ h₁ with ⟨io₂, hrun₂, h₂⟩
  rcases readExact_append _ _ io₂ h₂ with ⟨io₃, hrun₃, h₃⟩
  rw [UInt64.length_beBytes] at hrun₁
  rw [List.length_singleton] at hrun₂
  rw [UInt32.length_beBytes] at hrun₃
  exact ⟨io₃, h₃, by simp [readRawFrame, hrun₁, hrun₂, hrun₃]⟩

/-- Fewer bytes than a header are an error. -/
theorem readRawFrame_short (h : (rest io).length < 13) :
    ∃ io', readRawFrame io = (.error .unexpectedEof, io') := by
  -- the first of the three reads for which too little is left fails
  rcases Nat.lt_or_ge (rest io).length 8 with hlt | hge
  · rcases readExact_short 8 io hlt with ⟨io', hrun, -⟩
    exact ⟨io', by simp [readRawFrame, hrun]⟩
  have hlen₁ : ((rest io).take 8).length = 8 := by simpa using hge
  rcases readExact_append _ _ io (List.take_append_drop 8 (rest io)).symm with ⟨io₁, hrun₁, h₁⟩
  rw [hlen₁] at hrun₁
  have hrest₁ : (rest io₁).length = (rest io).length - 8 := by rw [h₁, List.length_drop]
  rcases Nat.lt_or_ge (rest io₁).length 1 with hlt | hge₁
  · rcases readExact_short 1 io₁ hlt with ⟨io', hrun, -⟩
    exact ⟨io', by simp [readRawFrame, hrun₁, hrun]⟩
  have hlen₂ : ((rest io₁).take 1).length = 1 := by simpa using hge₁
  rcases readExact_append _ _ io₁ (List.take_append_drop 1 (rest io₁)).symm with
    ⟨io₂, hrun₂, h₂⟩
  rw [hlen₂] at hrun₂
  have hrest₂ : (rest io₂).length < 4 := by
    rw [h₂, List.length_drop]
    omega
  rcases readExact_short 4 io₂ hrest₂ with ⟨io', hrun, -⟩
  exact ⟨io', by simp [readRawFrame, hrun₁, hrun₂, hrun]⟩

theorem readPayload_append {payload tail : List UInt8} (h : rest io = payload ++ tail)
    (hmax : payload.length ≤ maxFramePayload) (seqId : UInt64) (msgType : UInt8) :
    ∃ io', readPayload seqId msgType payload.length io =
        (.ok { seqId := seqId, msgType := msgType, payload := payload }, io') ∧
      rest io' = tail := by
  by_cases hzero : payload.length = 0
  · have hnil : payload = [] := List.eq_nil_of_length_eq_zero hzero
    subst hnil
    exact ⟨io, by simp [readPayload], h⟩
  · rcases readExact_append _ _ io h with ⟨io', hrun, hrest⟩
    exact ⟨io', by simp [readPayload, Nat.not_lt.2 hmax, hzero, hrun], hrest⟩

theorem readPayload_eq_ok {seqId : UInt64} {msgType : UInt8} {len : ℕ} {io' : S}
    {frame : RawFrame} (h : readPayload seqId msgType len io = (.ok frame, io')) :
    frame.seqId = seqId ∧ frame.msgType = msgType ∧ frame.payload.length = len ∧
      len ≤ maxFramePayload ∧ rest io = frame.payload ++ rest io' := by
  unfold readPayload at h
  split at h
  · simp at h
  rename_i hmax
  split at h
  · rename_i hzero
    rw [Prod.mk.injEq, Except.ok.injEq] at h
    rcases h with ⟨rfl, rfl⟩
    exact ⟨rfl, rfl, hzero.symm, Nat.not_lt.1 hmax, rfl⟩
  · split at h
    · simp at h
    · rename_i payload io'' hrun
      rw [Prod.mk.injEq, Except.ok.injEq] at h
      rcases h with ⟨rfl, rfl⟩
      rcases readExact_eq_ok hrun with ⟨hlen, hrest⟩
      exact ⟨rfl, rfl, hlen, Nat.not_lt.1 hmax, hrest⟩

end Reading

/-! ## Frames -/

def RawFrame.encode (frame : RawFrame) : List UInt8 :=
  frameHeader frame.seqId frame.msgType (UInt32.ofNat frame.payload.length) ++ frame.payload

def RawFrame.Fits (frame : RawFrame) : Prop :=
  frame.payload.length ≤ maxFramePayload

/-- Below the limit the cast of the length is exact. -/
theorem RawFrame.Fits.toNat_length {frame : RawFrame} (h : frame.Fits) :
    (UInt32.ofNat frame.payload.length).toNat = frame.payload.length := by
  refine UInt32.toNat_ofNat_of_lt' (Nat.lt_of_le_of_lt h ?_)
  decide

section Reading

variable {S : Type} [ByteSource S]

open ByteSource

/-- A frame that is there is read, and the bytes behind it are left. -/
theorem readRawFrame_encode {frame : RawFrame} (hfits : frame.Fits) {io : S} {tail : List UInt8}
    (h : rest io = frame.encode ++ tail) :
    ∃ io', readRawFrame io = (.ok frame, io') ∧ rest io' = tail := by
  rw [RawFrame.encode, List.append_assoc] at h
  rcases readRawFrame_header h with ⟨io₁, h₁, hrun⟩
  rw [hrun, hfits.toNat_length]
  exact readPayload_append h₁ hfits frame.seqId frame.msgType

/-- A frame that was read is within the limit, and its encoding is what was consumed. -/
theorem readRawFrame_eq_ok {io io' : S} {frame : RawFrame}
    (h : readRawFrame io = (.ok frame, io')) :
    frame.Fits ∧ rest io = frame.encode ++ rest io' := by
  rcases Nat.lt_or_ge (rest io).length 13 with hshort | hheader
  · rcases readRawFrame_short hshort with ⟨io'', hrun⟩
    simp [hrun] at h
  rcases exists_frameHeader hheader with ⟨seqId, msgType, len, tail, hsplit⟩
  rcases readRawFrame_header hsplit with ⟨io₁, h₁, hrun⟩
  rw [hrun] at h
  rcases readPayload_eq_ok h with ⟨rfl, rfl, hlen, hmax, hrest⟩
  have hword : UInt32.ofNat frame.payload.length = len := by
    rw [hlen, UInt32.ofNat_toNat]
  refine ⟨?_, ?_⟩
  · rw [RawFrame.Fits, hlen]
    exact hmax
  · rw [hsplit, ← h₁, hrest, RawFrame.encode, hword, List.append_assoc]

/-- Part of a frame is an error. -/
theorem readRawFrame_cut {frame : RawFrame} (hfits : frame.Fits) {io : S}
    (hstart : rest io <+: frame.encode) (hne : rest io ≠ frame.encode) :
    ∃ io', readRawFrame io = (.error .unexpectedEof, io') := by
  rcases Nat.lt_or_ge (rest io).length 13 with hshort | hheader
  · exact readRawFrame_short hshort
  -- the header is complete, so it is the header of the frame
  rcases hstart with ⟨missing, hmissing⟩
  have hfront : frameHeader frame.seqId frame.msgType (UInt32.ofNat frame.payload.length) <+:
      rest io := by
    have hpre : frameHeader frame.seqId frame.msgType (UInt32.ofNat frame.payload.length) <+:
        rest io ++ missing := by
      rw [hmissing]
      exact List.prefix_append _ _
    exact List.prefix_of_prefix_length_le hpre (List.prefix_append _ _) (by simpa using hheader)
  rcases hfront with ⟨part, hpart⟩
  rcases readRawFrame_header hpart.symm with ⟨io₁, h₁, hrun⟩
  -- the payload is not complete
  have hpayload : part ++ missing = frame.payload := by
    rw [← hpart, RawFrame.encode, List.append_assoc] at hmissing
    exact List.append_cancel_left hmissing
  have hmissing' : missing ≠ [] := by
    rintro rfl
    rw [List.append_nil] at hmissing
    exact hne hmissing
  have hlt : (rest io₁).length < frame.payload.length := by
    have hpos : 0 < missing.length := List.length_pos_iff.2 hmissing'
    rw [h₁, ← hpayload, List.length_append]
    omega
  have hzero : frame.payload.length ≠ 0 := Nat.ne_of_gt (Nat.zero_lt_of_lt hlt)
  rcases readExact_short _ _ hlt with ⟨io', hshort, -⟩
  refine ⟨io', ?_⟩
  have hmax : ¬ maxFramePayload < frame.payload.length := Nat.not_lt.2 hfits
  rw [hrun, hfits.toNat_length, readPayload, if_neg hmax, if_neg hzero, hshort]

/-- A header with a length over the limit is an error, and no byte behind it is read. -/
theorem readRawFrame_oversize {io : S} {seqId : UInt64} {msgType : UInt8} {len : UInt32}
    {tail : List UInt8} (h : rest io = frameHeader seqId msgType len ++ tail)
    (hover : maxFramePayload < len.toNat) :
    ∃ io', readRawFrame io = (.error (payloadTooLarge len.toNat), io') ∧ rest io' = tail := by
  rcases readRawFrame_header h with ⟨io₁, h₁, hrun⟩
  exact ⟨io₁, by rw [hrun, readPayload, if_pos hover], h₁⟩

/-- Every number of reads takes that many frames off the front of the stream. -/
theorem readRawFrames_encode : ∀ {frames : List RawFrame}, (∀ f ∈ frames, f.Fits) →
    ∀ {io : S} {tail : List UInt8}, rest io = frames.flatMap RawFrame.encode ++ tail →
      ∀ count ≤ frames.length, ∃ io', readRawFrames count io = (.ok (frames.take count), io') ∧
        rest io' = (frames.drop count).flatMap RawFrame.encode ++ tail
  | _, _, io, _, h, 0, _ => ⟨io, by simp [readRawFrames], by simpa using h⟩
  | [], _, _, _, _, count + 1, hle => absurd hle (by simp)
  | frame :: frames, hfits, io, tail, h, count + 1, hle => by
      rw [List.flatMap_cons, List.append_assoc] at h
      rcases readRawFrame_encode (hfits frame List.mem_cons_self) h with ⟨io₁, hrun, h₁⟩
      rcases readRawFrames_encode (fun f hf => hfits f (List.mem_cons_of_mem frame hf)) h₁ count
        (by simpa using hle) with ⟨io', hruns, hrest⟩
      exact ⟨io', by simp [readRawFrames, hrun, hruns], by simpa using hrest⟩

end Reading

section Writing

variable {S : Type} [ByteSink S]

open ByteSink

theorem writeRawFrame_spec {frame : RawFrame} (hfits : frame.Fits) (io : S) :
    ∃ io', writeRawFrame frame.seqId frame.msgType frame.payload io = (.ok (), io') ∧
      written io' = written io ++ frame.encode := by
  rcases writeAll_spec (frame.seqId.beBytes ++ [frame.msgType] ++
    (UInt32.ofNat frame.payload.length).beBytes ++ frame.payload) io with ⟨io₁, hrun, h₁⟩
  have hmax : ¬ maxFramePayload < frame.payload.length := Nat.not_lt.2 hfits
  refine ⟨flush io₁, ?_, ?_⟩
  · simp only [writeRawFrame, if_neg hmax, hrun]
  · rw [written_flush, h₁, RawFrame.encode, frameHeader]
    simp only [List.append_assoc]

/-- Over the limit nothing is written. -/
theorem writeRawFrame_oversize {payload : List UInt8} (hover : maxFramePayload < payload.length)
    (seqId : UInt64) (msgType : UInt8) (io : S) :
    writeRawFrame seqId msgType payload io = (.error (payloadTooLarge payload.length), io) := by
  rw [writeRawFrame, if_pos hover]

theorem writeRawFrames_spec : ∀ {frames : List RawFrame}, (∀ f ∈ frames, f.Fits) → ∀ io : S,
    ∃ io', writeRawFrames frames io = (.ok (), io') ∧
      written io' = written io ++ frames.flatMap RawFrame.encode
  | [], _, io => ⟨io, rfl, by simp⟩
  | frame :: frames, hfits, io => by
      rcases writeRawFrame_spec (hfits frame List.mem_cons_self) io with ⟨io₁, hrun, h₁⟩
      rcases writeRawFrames_spec (fun f hf => hfits f (List.mem_cons_of_mem frame hf)) io₁ with
        ⟨io', hruns, hwritten⟩
      exact ⟨io', by simp [writeRawFrames, hrun, hruns], by simp [hwritten, h₁]⟩

end Writing

/-- Frames survive the stream.  What is written for a list of frames is read back as that list, each
read taking its own frame; part of a frame is an error; what is read re-encodes to the bytes taken;
and payloads over the limit are refused on both sides before any of their bytes is moved. -/
theorem frames_roundtrip (R W : Type) [ByteSource R] [ByteSink W] :
    (∀ frames : List RawFrame, (∀ f ∈ frames, f.Fits) →
      (∀ io : W, ∃ io', writeRawFrames frames io = (.ok (), io') ∧
        ByteSink.written io' = ByteSink.written io ++ frames.flatMap RawFrame.encode) ∧
      ∀ (src : R) (tail : List UInt8),
        ByteSource.rest src = frames.flatMap RawFrame.encode ++ tail →
          ∀ count ≤ frames.length, ∃ src',
            readRawFrames count src = (.ok (frames.take count), src') ∧
            ByteSource.rest src' = (frames.drop count).flatMap RawFrame.encode ++ tail) ∧
    (∀ frame : RawFrame, frame.Fits →
      (∀ io : W, ∃ io', writeRawFrame frame.seqId frame.msgType frame.payload io = (.ok (), io') ∧
        ByteSink.written io' = ByteSink.written io ++ frame.encode) ∧
      ∀ src : R, ByteSource.rest src <+: frame.encode → ByteSource.rest src ≠ frame.encode →
        ∃ src', readRawFrame src = (.error .unexpectedEof, src')) ∧
    (∀ (src src' : R) (frame : RawFrame), readRawFrame src = (.ok frame, src') →
      frame.Fits ∧ ByteSource.rest src = frame.encode ++ ByteSource.rest src') ∧
    (∀ (seqId : UInt64) (msgType : UInt8) (payload : List UInt8) (io : W),
      maxFramePayload < payload.length →
        writeRawFrame seqId msgType payload io =
          (.error (payloadTooLarge payload.length), io)) ∧
    (∀ (seqId : UInt64) (msgType : UInt8) (len : UInt32) (tail : List UInt8) (src : R),
      maxFramePayload < len.toNat →
        ByteSource.rest src = frameHeader seqId msgType len ++ tail →
          ∃ src', readRawFrame src = (.error (payloadTooLarge len.toNat), src') ∧
            ByteSource.rest src' = tail) := by
  refine ⟨?_, ?_, ?_, ?_, ?_⟩
  · intro frames hfits
    exact ⟨fun io => writeRawFrames_spec hfits io,
      fun src tail h => readRawFrames_encode hfits h⟩
  · intro frame hfits
    exact ⟨fun io => writeRawFrame_spec hfits io,
      fun src hstart hne => readRawFrame_cut hfits hstart hne⟩
  · intro src src' frame h
    exact readRawFrame_eq_ok h
  · intro seqId msgType payload io hover
    exact writeRawFrame_oversize hover seqId msgType io
  · intro seqId msgType len tail src hover h
    exact readRawFrame_oversize h hover

def twoFrames : List RawFrame :=
  [{ seqId := 42, msgType := 0x01, payload := [104, 105] },
    { seqId := 0, msgType := 0xFF, payload := [] }]

/-- Their bytes in chunks that cut the first header and run over into the second frame. -/
def twoFramesChunks : Chunks :=
  { chunks := [[0, 0, 0, 0, 0], [0, 0, 42, 1, 0, 0, 0, 2, 104], [], [105, 0, 0],
      [0, 0, 0, 0, 0, 0, 0xFF, 0, 0, 0, 0]] }

theorem frames_roundtrip_two :
    ∃ io' : Buffer, writeRawFrames twoFrames ({ bytes := [] } : Buffer) = (.ok (), io') ∧
      io'.bytes = ByteSource.rest twoFramesChunks ∧
      ∃ src', readRawFrames 2 twoFramesChunks = (.ok twoFrames, src') ∧
        ByteSource.rest src' = [] := by
  have hfits : ∀ f ∈ twoFrames, f.Fits := by
    simp [twoFrames, RawFrame.Fits, maxFramePayload]
  have hbytes : ByteSource.rest twoFramesChunks = twoFrames.flatMap RawFrame.encode ++ [] := by
    decide +kernel
  rcases (frames_roundtrip Chunks Buffer).1 twoFrames hfits with ⟨hwrite, hread⟩
  rcases hwrite { bytes := [] } with ⟨io', hrun, hwritten⟩
  rcases hread twoFramesChunks [] hbytes 2 le_rfl with ⟨src', hruns, hrest⟩
  refine ⟨io', hrun, ?_, src', hruns, by simpa [twoFrames] using hrest⟩
  rw [hbytes, List.append_nil]
  exact hwritten

end Network
end CraftecCore
