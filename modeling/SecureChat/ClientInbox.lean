import SecureChat.Utf8Decoding
import SecureChat.MixedFraming

set_option autoImplicit false

/-!
# The client's `recieving_msg`

Each `readyRead` chunk is decoded and split by itself; what it leaves unfinished
is passed on as a message. The messages come through exactly where no chunk
leaves anything unfinished.
-/
namespace SecureChat.ClientInbox
open Framing StringView QtText MixedFraming

/-- The strings one chunk makes the model pass to `handle_msg_reception`. -/
def recievingMsg (d : Utf8Decoder) (delim : Delimiter Char) (recievedData : Bytes) : List QString :=
  pieces delim (d.fromUtf8 recievedData)

def TcpClientModel.recievingMsg (d : Utf8Decoder) : Bytes → List QString :=
  ClientInbox.recievingMsg d crlfText

def SslClientModel.recievingMsg (d : Utf8Decoder) : Bytes → List QString :=
  ClientInbox.recievingMsg d crlfText

/-- `fromUtf8` drops a byte order mark at the front of the chunk. -/
def Skips (d : Utf8Decoder) (chunk : Bytes) : Prop := d.skipsBom = true ∧ bom <+: chunk

/-- The chunk is empty or ends with a line end, and loses no character. -/
def WholeLines (d : Utf8Decoder) (chunk : Bytes) : Prop :=
  rest crlf chunk = [] ∧ ¬ Skips d chunk

instance (d : Utf8Decoder) (chunk : Bytes) : Decidable (Skips d chunk) :=
  inferInstanceAs (Decidable (_ ∧ _))

instance (d : Utf8Decoder) (chunk : Bytes) : Decidable (WholeLines d chunk) :=
  inferInstanceAs (Decidable (_ ∧ _))

variable (d : Utf8Decoder)

/-! ### One chunk -/

theorem body_of_skips {chunk : Bytes} (h : Skips d chunk) : chunk = bom ++ d.body chunk := by
  have hbody : d.body chunk = chunk.drop bom.length := if_pos h
  rw [hbody]
  exact List.prefix_iff_eq_append.mp h.2 |>.symm

theorem body_of_not_skips {chunk : Bytes} (h : ¬ Skips d chunk) : d.body chunk = chunk :=
  if_neg h

theorem body_of_ascii {x : UInt8} (hx : x.toNat < 128) (b : Bytes) :
    d.body (x :: b) = x :: b := by
  refine body_of_not_skips d fun h => ?_
  have hbom : x = 0xEF := (List.cons_prefix_cons.mp h.2).1.symm
  rw [hbom] at hx
  exact absurd hx (by decide)

theorem count_body (chunk : Bytes) : (d.body chunk).count 13 = chunk.count 13 := by
  by_cases h : Skips d chunk
  · conv_rhs => rw [body_of_skips d h]
    rw [List.count_append]
    exact (Nat.zero_add _).symm
  · rw [body_of_not_skips d h]

theorem count_recievingMsg (chunk : Bytes) :
    (recievingMsg d crlfText chunk).flatten.count '\r' + (lines crlf (d.body chunk)).length =
      chunk.count 13 := by
  have hcount := count_pieces crlfText (d.fromUtf8 chunk)
  have hlines := congrArg List.length (lines_decode d (d.body chunk)).1
  rw [List.length_map] at hlines
  have hdecode : (d.decode (d.body chunk)).count '\r' = (d.body chunk).count 13 :=
    count_decode d (x := 13) (by decide) (d.body chunk)
  rw [← count_body d, ← hdecode, ← hlines]
  exact hcount

theorem length_recievingMsg (chunk : Bytes) :
    (recievingMsg d crlfText chunk).length =
      (lines crlf (d.body chunk)).length + if rest crlf (d.body chunk) = [] then 0 else 1 := by
  obtain ⟨hlines, hrest⟩ := lines_decode d (d.body chunk)
  have hnil : rest crlfText (d.fromUtf8 chunk) = [] ↔ rest crlf (d.body chunk) = [] := by
    rw [Utf8Decoder.fromUtf8, hrest]
    constructor
    · exact d.decode_nonempty _
    · intro h
      rw [h, decode_nil]
  have hlen : (lines crlfText (d.fromUtf8 chunk)).length = (lines crlf (d.body chunk)).length := by
    rw [Utf8Decoder.fromUtf8, hlines, List.length_map]
  rw [recievingMsg, length_pieces, hlen]
  simp only [hnil]

theorem recievingMsg_of_rest {chunk : Bytes} (h : rest crlf (d.body chunk) = []) :
    recievingMsg d crlfText chunk = (lines crlf (d.body chunk)).map d.decode := by
  obtain ⟨hlines, hrest⟩ := lines_decode d (d.body chunk)
  rw [h, decode_nil] at hrest
  rw [recievingMsg, Utf8Decoder.fromUtf8, pieces_of_rest_nil crlfText hrest, hlines]

theorem frames_of_rest {b : Bytes} (h : rest crlf b = []) : frames crlf (lines crlf b) = b := by
  have hb := frames_lines_rest crlf b
  rwa [h, List.append_nil] at hb

/-- A chunk of whole lines is decoded as if the others were not there, but for
the byte order mark. -/
theorem decode_chunk_append {chunk : Bytes} (h : rest crlf (d.body chunk) = []) (b : Bytes) :
    (d.decode (chunk ++ b)).length =
      (frames crlfText (recievingMsg d crlfText chunk)).length + (if Skips d chunk then 1 else 0) +
        (d.decode b).length := by
  have hbody : d.decode (d.body chunk ++ b) =
      frames crlfText (recievingMsg d crlfText chunk) ++ d.decode b := by
    rw [recievingMsg_of_rest d h, ← decode_frames_append, frames_of_rest h]
  by_cases hskip : Skips d chunk
  · have hmark : chunk ++ b = toUtf8 ['\uFEFF'] ++ (d.body chunk ++ b) := by
      conv_lhs => rw [body_of_skips d hskip]
      rw [List.append_assoc]
      rfl
    rw [hmark, d.decode_toUtf8, hbody, if_pos hskip]
    simp only [List.length_append, List.length_singleton]
    omega
  · rw [← body_of_not_skips d hskip, hbody, body_of_not_skips d hskip, if_neg hskip,
      List.length_append]
    omega

/-! ### All chunks -/

/-- How many complete lines the chunks hold, each read by itself. -/
def lineCount (chunks : List Bytes) : ℕ :=
  (chunks.flatMap fun chunk => lines crlf (d.body chunk)).length

theorem count_chunks (chunks : List Bytes) :
    (chunks.flatMap (recievingMsg d crlfText)).flatten.count '\r' + lineCount d chunks =
      chunks.flatten.count 13 := by
  induction chunks with
  | nil => rfl
  | cons chunk chunks ih =>
    have hchunk := count_recievingMsg d chunk
    simp only [lineCount, List.flatMap_cons, List.flatten_append, List.count_append,
      List.length_append, List.flatten_cons] at ih ⊢
    omega

theorem length_chunks (chunks : List Bytes) :
    (chunks.flatMap (recievingMsg d crlfText)).length =
      lineCount d chunks + chunks.countP fun chunk => rest crlf (d.body chunk) ≠ [] := by
  induction chunks with
  | nil => rfl
  | cons chunk chunks ih =>
    have hchunk := length_recievingMsg d chunk
    simp only [lineCount, List.flatMap_cons, List.length_append] at ih ⊢
    rw [List.countP_cons]
    by_cases hrest : rest crlf (d.body chunk) = []
    · rw [if_pos hrest] at hchunk
      rw [if_neg (by simp [hrest])]
      omega
    · rw [if_neg hrest] at hchunk
      rw [if_pos (by simp [hrest])]
      omega

theorem decode_chunks {chunks : List Bytes} (h : ∀ c ∈ chunks, rest crlf (d.body c) = []) :
    (d.decode chunks.flatten).length =
      (frames crlfText (chunks.flatMap (recievingMsg d crlfText))).length +
        chunks.countP fun chunk => Skips d chunk := by
  induction chunks with
  | nil => simp
  | cons chunk chunks ih =>
    have htail := ih fun c hc => h c (List.mem_cons_of_mem _ hc)
    have hchunk := decode_chunk_append d (h chunk List.mem_cons_self) chunks.flatten
    rw [List.flatten_cons, List.flatMap_cons, frames_append, List.length_append, List.countP_cons,
      hchunk, htail]
    simp only [decide_eq_true_eq]
    omega

/-! ### The messages come through -/

theorem free_toUtf8 (d : Utf8Decoder) {m : QString} (h : Free crlfText m) :
    Free crlf (toUtf8 m) := by
  have hlines := (lines_decode d (toUtf8 m)).1
  rw [decode_encoded, (lines_of_free crlfText h).1] at hlines
  have hb := frames_lines_rest crlf (toUtf8 m)
  rw [List.map_eq_nil_iff.mp hlines.symm, frames_nil, List.nil_append] at hb
  exact hb ▸ free_rest crlf (toUtf8 m)

theorem wholeLines_of_received {ms : List QString} {chunks : List Bytes}
    (hcut : chunks.flatten = toUtf8 (frames crlfText ms))
    (h : chunks.flatMap (recievingMsg d crlfText) = ms) : ∀ c ∈ chunks, WholeLines d c := by
  have hbytes : chunks.flatten.count 13 = ms.flatten.count '\r' + ms.length := by
    have hcount := count_decode d (x := 13) (by decide) chunks.flatten
    rw [← hcount, hcut, decode_encoded]
    exact count_frames crlfText ms
  -- the carriage returns say that no line was cut, the number of messages that no chunk left a rest
  have hlines := count_chunks d chunks
  have hmessages := length_chunks d chunks
  rw [h] at hlines hmessages
  have hrests : ∀ c ∈ chunks, rest crlf (d.body c) = [] := by
    have hzero : (chunks.countP fun chunk => rest crlf (d.body chunk) ≠ []) = 0 := by omega
    intro c hc
    simpa using List.countP_eq_zero.mp hzero c hc
  -- and the number of characters says that no byte order mark was dropped
  have hchars := decode_chunks d hrests
  rw [h, hcut, decode_encoded] at hchars
  have hmarks : (chunks.countP fun chunk => Skips d chunk) = 0 := by omega
  intro c hc
  have hskip : ¬ Skips d c := by simpa using List.countP_eq_zero.mp hmarks c hc
  have hrest := hrests c hc
  rw [body_of_not_skips d hskip] at hrest
  exact ⟨hrest, hskip⟩

theorem received_of_wholeLines {ms : List QString} {chunks : List Bytes}
    (hfree : ∀ m ∈ ms, Free crlfText m) (hcut : chunks.flatten = toUtf8 (frames crlfText ms))
    (h : ∀ c ∈ chunks, WholeLines d c) : chunks.flatMap (recievingMsg d crlfText) = ms := by
  have hchunk : ∀ c ∈ chunks, recievingMsg d crlfText c = (lines crlf c).map d.decode := by
    intro c hc
    obtain ⟨hrest, hskip⟩ := h c hc
    have hbody := body_of_not_skips d hskip
    rw [recievingMsg_of_rest d (by rw [hbody, hrest]), hbody]
  have hflat : frames crlf (chunks.flatMap (lines crlf)) = chunks.flatten := by
    clear hcut hchunk
    induction chunks with
    | nil => rfl
    | cons c chunks ih =>
      rw [List.flatMap_cons, frames_append, ih fun c hc => h c (List.mem_cons_of_mem _ hc),
        frames_of_rest (h c List.mem_cons_self).1, List.flatten_cons]
  have hlines : chunks.flatMap (lines crlf) = ms.map toUtf8 := by
    rw [hcut, toUtf8_frames] at hflat
    have hleft : ∀ m ∈ chunks.flatMap (lines crlf), Free crlf m := by
      intro m hm
      obtain ⟨c, _, hmem⟩ := List.mem_flatMap.mp hm
      exact free_lines crlf hmem
    have hright : ∀ m ∈ ms.map toUtf8, Free crlf m := by
      intro m hm
      obtain ⟨t, ht, rfl⟩ := List.mem_map.mp hm
      exact free_toUtf8 d (hfree t ht)
    rw [← (lines_frames crlf hleft).1, hflat, (lines_frames crlf hright).1]
  calc
    chunks.flatMap (recievingMsg d crlfText) =
      chunks.flatMap fun c => (lines crlf c).map d.decode :=
      List.flatMap_congr hchunk
    _ = (chunks.flatMap (lines crlf)).map d.decode := List.map_flatMap.symm
    _ = ms := by
      rw [hlines, List.map_map]
      exact List.map_id'' (decode_encoded d) ms

theorem received_iff {ms : List QString} {chunks : List Bytes}
    (hfree : ∀ m ∈ ms, Free crlfText m) (hcut : chunks.flatten = toUtf8 (frames crlfText ms)) :
    chunks.flatMap (recievingMsg d crlfText) = ms ↔ ∀ c ∈ chunks, WholeLines d c :=
  ⟨wholeLines_of_received d hcut, received_of_wholeLines d hfree hcut⟩

/-- Both models pass the messages of the stream on exactly when each chunk is
made of whole lines and loses no byte order mark. Next to such a cutting, another
gives the same sequence exactly when it is one as well. -/
theorem chunk_invariance_iff (d : Utf8Decoder) {ms : List QString} {chunks : List Bytes}
    (hfree : ∀ m ∈ ms, Free crlfText m) (hcut : chunks.flatten = toUtf8 (frames crlfText ms)) :
    (chunks.flatMap (TcpClientModel.recievingMsg d) = ms ↔ ∀ c ∈ chunks, WholeLines d c) ∧
      (chunks.flatMap (SslClientModel.recievingMsg d) = ms ↔ ∀ c ∈ chunks, WholeLines d c) ∧
      ((∀ c ∈ chunks, WholeLines d c) → ∀ other : List Bytes, other.flatten = chunks.flatten →
        (other.flatMap (TcpClientModel.recievingMsg d) =
            chunks.flatMap (TcpClientModel.recievingMsg d) ↔ ∀ c ∈ other, WholeLines d c)) := by
  refine ⟨received_iff d hfree hcut, received_iff d hfree hcut, ?_⟩
  intro hwhole other hother
  have hms : chunks.flatMap (TcpClientModel.recievingMsg d) = ms :=
    received_of_wholeLines d hfree hcut hwhole
  rw [hms]
  exact received_iff d hfree (hother.trans hcut)

theorem chunk_invariance_twoChunks :
    [ascii ['a', '\r', '\n', '\r', '\n'], ascii ['b', '\r', '\n']].flatMap
      (TcpClientModel.recievingMsg Utf8Decoding.qtDecoder) = [['a'], [], ['b']] :=
  (chunk_invariance_iff Utf8Decoding.qtDecoder (by decide) (by decide)).1.mpr (by decide)

/-- The line end comes in a chunk of its own and is taken for an empty message. -/
theorem line_end_makes_message :
    [ascii ['a'], ascii ['\r', '\n']].flatten = toUtf8 (frames crlfText [['a']]) ∧
      [ascii ['a'], ascii ['\r', '\n']].flatMap
        (TcpClientModel.recievingMsg Utf8Decoding.qtDecoder) = [['a'], []] := by
  decide

end SecureChat.ClientInbox
