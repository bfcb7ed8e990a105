import WiseacctSso.StreamDecoders

/-!
# Compressed JSON bodies

The inflater decodes a body as its chunks arrive, and holds no more than the limit. What zlib
does is a parameter; it decodes a stream byte by byte, and gives out at most as much as it is
asked for.
-/
namespace WiseacctSso.BoundedInflater
open StreamDecoders

abbrev Bytes : Type := List UInt8

/-! ## zlib -/

/-- The module, with its decompression objects for each size of the window. -/
structure Zlib (Obj : Type) where
  decompressobj : ℕ → Obj
  decompress : Obj → Bytes → ℕ → Except String (Bytes × Obj)
  flush : Obj → ℕ → Except String (Bytes × Obj)
  unconsumedTail : Obj → Bytes
  unusedData : Obj → Bytes
  eof : Obj → Bool

variable {Obj σ : Type}

/-- The objects decode the streams of `decoder`, which is one for each size of the window.
`stands w o s` says that the stream that `o` decodes has come to the state `s`. -/
structure Zlib.Decodes (zlib : Zlib Obj) (decoder : ℕ → Decoder σ UInt8)
    (stands : ℕ → Obj → σ → Prop) : Prop where
  fresh : ∀ w, stands w (zlib.decompressobj w) (decoder w).start
  /-- All the data is taken in. -/
  more : ∀ {w o s data limit s' out}, stands w o s →
    (decoder w).read s data = .more s' out → out.length < limit →
    ∃ o', zlib.decompress o data limit = .ok (out, o') ∧ zlib.unconsumedTail o' = [] ∧
      zlib.eof o' = false ∧ stands w o' s'
  /-- The stream ends, and what follows is left over. -/
  ended : ∀ {w o s data limit out rest}, stands w o s →
    (decoder w).read s data = .ended out rest → out.length < limit →
    ∃ o', zlib.decompress o data limit = .ok (out, o') ∧ zlib.unconsumedTail o' = [] ∧
      zlib.eof o' = true ∧ zlib.unusedData o' = rest
  refused : ∀ {w o s data limit out}, stands w o s →
    (decoder w).read s data = .refused out → out.length < limit →
    ∃ e, zlib.decompress o data limit = .error e
  /-- No more than the limit is given out, whatever the stream is like after that. -/
  limited : ∀ {w o s data limit out o'}, stands w o s → 0 < limit →
    limit ≤ ((decoder w).read s data).output.length →
    zlib.decompress o data limit = .ok (out, o') →
    out = ((decoder w).read s data).output.take limit
  /-- Nothing is held back from a stream that has ended. -/
  flushed : ∀ {o limit}, zlib.eof o = true → 0 < limit →
    ∃ o', zlib.flush o limit = .ok ([], o')

/-! ## The inflater -/

def expressJsonLimitBytes : ℕ := 100 * 1024

def maxWbits : ℕ := 15

inductive InflateError
  | jsonBodyTooLarge
  | zlib (message : String)
  | unsupportedJsonCharset (encoding : String)
  /-- The loop over the streams of a chunk does not come to its end. -/
  | diverged

/-- What is stored never exceeds the limit, at no point of a call. -/
structure Inflater (Obj : Type) where
  windowBits : ℕ
  contentEncoding : String
  decoder : Obj
  chunks : List Bytes
  inflatedSize : ℕ
  finished : Bool
  stored_le : chunks.flatten.length ≤ inflatedSize
  stored_bounded : chunks.flatten.length ≤ expressJsonLimitBytes

/-- The inflater after a call, and the error if the call has raised one. -/
abbrev Outcome (Obj : Type) : Type := Inflater Obj × Except InflateError Unit

namespace Inflater

variable (zlib : Zlib Obj)

def new (contentEncoding : String) : Except InflateError (Inflater Obj) :=
  if contentEncoding = "gzip" then
    .ok ⟨maxWbits ||| 16, contentEncoding, zlib.decompressobj (maxWbits ||| 16), [], 0, false,
      by simp, by simp⟩
  else if contentEncoding = "deflate" then
    .ok ⟨maxWbits, contentEncoding, zlib.decompressobj maxWbits, [], 0, false, by simp, by simp⟩
  else .error (.unsupportedJsonCharset contentEncoding)

def append (self : Inflater Obj) (chunk : Bytes) : Outcome Obj :=
  if h : self.inflatedSize + chunk.length > expressJsonLimitBytes then
    ({ self with
        inflatedSize := self.inflatedSize + chunk.length
        stored_le := Nat.le_trans self.stored_le (Nat.le_add_right _ _) }, .error .jsonBodyTooLarge)
  else
    have hstored : (self.chunks ++ [chunk]).flatten.length ≤ self.inflatedSize + chunk.length := by
      have hle := self.stored_le
      simp only [List.flatten_append, List.length_append, List.flatten_singleton]
      omega
    if chunk = [] then
      ({ self with
          inflatedSize := self.inflatedSize + chunk.length
          stored_le := Nat.le_trans self.stored_le (Nat.le_add_right _ _) }, .ok ())
    else
      ({ self with
          chunks := self.chunks ++ [chunk]
          inflatedSize := self.inflatedSize + chunk.length
          stored_le := hstored
          stored_bounded := Nat.le_trans hstored (Nat.le_of_not_gt h) }, .ok ())

/-- How much the decoder may give out: one byte more than there is room for. -/
def room (self : Inflater Obj) : ℕ := expressJsonLimitBytes + 1 - self.inflatedSize

/-- The loop of `feed`. Each stream takes a byte, so the number of bytes is fuel enough. -/
def feedLoop : ℕ → Inflater Obj → Bytes → Outcome Obj
  | 0, self, remaining => (self, if remaining = [] then .ok () else .error .diverged)
  | fuel + 1, self, remaining =>
      if remaining = [] then (self, .ok ()) else
      match zlib.decompress self.decoder remaining self.room with
      | .error e => (self, .error (.zlib e))
      | .ok (output, decoder) =>
          match append { self with decoder := decoder } output with
          | (self, .error e) => (self, .error e)
          | (self, .ok ()) =>
              if zlib.unconsumedTail self.decoder ≠ [] then (self, .error .jsonBodyTooLarge)
              else if !zlib.eof self.decoder then (self, .ok ())
              else
                let remaining := zlib.unusedData self.decoder
                if self.contentEncoding = "deflate" then ({ self with finished := true }, .ok ())
                else if remaining = [] then ({ self with finished := true }, .ok ())
                else feedLoop fuel { self with decoder := zlib.decompressobj self.windowBits }
                  remaining

def feed (self : Inflater Obj) (data : Bytes) : Outcome Obj :=
  if data = [] then (self, .ok ())
  else if self.finished then
    if self.contentEncoding = "deflate" then (self, .ok ())
    else feedLoop zlib data.length
      { self with decoder := zlib.decompressobj self.windowBits, finished := false } data
  else feedLoop zlib data.length self data

def finish (self : Inflater Obj) : Inflater Obj × Except InflateError Bytes :=
  if !self.finished || !zlib.eof self.decoder then
    (self, .error (.zlib "incomplete compressed body"))
  else
    match zlib.flush self.decoder self.room with
    | .error e => (self, .error (.zlib e))
    | .ok (output, decoder) =>
        match append { self with decoder := decoder } output with
        | (self, .error e) => (self, .error e)
        | (self, .ok ()) => (self, .ok self.chunks.flatten)

/-- Feed the chunks in order, until one raises. -/
def feedAll (self : Inflater Obj) : List Bytes → Outcome Obj
  | [] => (self, .ok ())
  | chunk :: chunks =>
      match self.feed zlib chunk with
      | (self, .error e) => (self, .error e)
      | (self, .ok ()) => self.feedAll chunks

end Inflater

/-- Feed a body in chunks, then finish. -/
def inflateChunks (zlib : Zlib Obj) (contentEncoding : String) (chunks : List Bytes) :
    Except InflateError Bytes := do
  let inflater ← Inflater.new zlib contentEncoding
  match inflater.feedAll zlib chunks with
  | (_, .error e) => .error e
  | (inflater, .ok ()) => (inflater.finish zlib).2

def inflateJsonBody (zlib : Zlib Obj) (body : Bytes) (contentEncoding : String) :
    Except InflateError Bytes := do
  if contentEncoding = "identity" then return body
  let inflater ← Inflater.new zlib contentEncoding
  match inflater.feed zlib body with
  | (_, .error e) => .error e
  | (inflater, .ok ()) => (inflater.finish zlib).2

/-! ## What a call does to the stream -/

section calls
variable {zlib : Zlib Obj} {decoder : ℕ → Decoder σ UInt8} {stands : ℕ → Obj → σ → Prop}
  {w : ℕ} {encoding : String}

/-- The inflater has given out `out`, and its stream has come to a stage. -/
structure Represents (zlib : Zlib Obj) (stands : ℕ → Obj → σ → Prop) (w : ℕ)
    (encoding : String) (inflater : Inflater Obj) (stage : Decoder.Stage σ) (out : Bytes) :
    Prop where
  windowBits : inflater.windowBits = w
  contentEncoding : inflater.contentEncoding = encoding
  chunks : inflater.chunks.flatten = out
  inflatedSize : inflater.inflatedSize = out.length
  stage : match stage with
    | .inside s => inflater.finished = false ∧ stands w inflater.decoder s
    | .finished => inflater.finished = true ∧ zlib.eof inflater.decoder = true

/-- A call succeeds with what the streams of its data decode to, if that fits, and fails
otherwise. -/
def Agrees (zlib : Zlib Obj) (stands : ℕ → Obj → σ → Prop) (w : ℕ) (encoding : String)
    (out : Bytes) (outcome : Outcome Obj) (run : Option (Decoder.Stage σ × Bytes)) : Prop :=
  match outcome with
  | (self, .ok ()) => ∃ stage more, run = some (stage, more) ∧
      Represents zlib stands w encoding self stage (out ++ more)
  | (_, .error e) => e ≠ .diverged ∧
      ∀ stage more, run = some (stage, more) →
        expressJsonLimitBytes < out.length + more.length

/-- A call that goes on after `before` agrees with the whole. -/
lemma Agrees.after {out before : Bytes} {outcome : Outcome Obj}
    {run : Option (Decoder.Stage σ × Bytes)}
    (h : Agrees zlib stands w encoding (out ++ before) outcome run) :
    Agrees zlib stands w encoding out outcome (Decoder.afterOutput before run) := by
  obtain ⟨self, e | u⟩ := outcome
  · refine ⟨h.1, fun stage more hrun => ?_⟩
    obtain ⟨r, hr, heq⟩ := Option.map_eq_some_iff.mp hrun
    obtain ⟨rfl, rfl⟩ := Prod.mk.inj heq
    have hlarge := h.2 r.1 r.2 hr
    simp only [List.length_append] at hlarge ⊢
    omega
  · obtain ⟨stage, more, rfl, hself⟩ := h
    exact ⟨stage, before ++ more, rfl, by rw [← List.append_assoc]; exact hself⟩

lemma append_cases (self : Inflater Obj) (chunk : Bytes) :
    (expressJsonLimitBytes < self.inflatedSize + chunk.length ∧
      ∃ self', self.append chunk = (self', .error .jsonBodyTooLarge)) ∨
    (self.inflatedSize + chunk.length ≤ expressJsonLimitBytes ∧
      ∃ self', self.append chunk = (self', .ok ()) ∧
        self'.chunks.flatten = self.chunks.flatten ++ chunk ∧
        self'.inflatedSize = self.inflatedSize + chunk.length ∧
        self'.windowBits = self.windowBits ∧ self'.contentEncoding = self.contentEncoding ∧
        self'.decoder = self.decoder ∧ self'.finished = self.finished) := by
  unfold Inflater.append
  by_cases hsize : self.inflatedSize + chunk.length > expressJsonLimitBytes
  · rw [dif_pos hsize]
    exact .inl ⟨hsize, _, rfl⟩
  rw [dif_neg hsize]
  refine .inr ⟨Nat.le_of_not_gt hsize, ?_⟩
  by_cases hempty : chunk = []
  · rw [if_pos hempty]
    exact ⟨_, rfl, by simp [hempty], rfl, rfl, rfl, rfl, rfl⟩
  · rw [if_neg hempty]
    exact ⟨_, rfl, by simp, rfl, rfl, rfl, rfl, rfl⟩

/-- May several streams follow one another? -/
def several (encoding : String) : Bool := encoding ≠ "deflate"

lemma Represents.room {self : Inflater Obj} {stage : Decoder.Stage σ} {out : Bytes}
    (h : Represents zlib stands w encoding self stage out) :
    0 < self.room ∧ self.room + out.length = expressJsonLimitBytes + 1 := by
  have hbound := self.stored_bounded
  rw [h.chunks] at hbound
  unfold Inflater.room
  rw [h.inflatedSize]
  omega

/-- One stretch of a stream: when there is no room for it, the call fails. -/
lemma feedLoop_full (hzlib : zlib.Decodes decoder stands) {fuel : ℕ} {self : Inflater Obj} {s : σ}
    {out data : Bytes} (hself : Represents zlib stands w encoding self (.inside s) out)
    (hdata : data ≠ []) (hfull : self.room ≤ ((decoder w).read s data).output.length) :
    Agrees zlib stands w encoding out (self.feedLoop zlib (fuel + 1) data)
      ((decoder w).run (several encoding) (.inside s) data) := by
  obtain ⟨hpos, hroom⟩ := hself.room
  have hlarge : ∀ stage more,
      (decoder w).run (several encoding) (.inside s) data = some (stage, more) →
        expressJsonLimitBytes < out.length + more.length := by
    intro stage more hrun
    have hle := (decoder w).output_read_le hrun
    omega
  unfold Inflater.feedLoop
  rw [if_neg hdata]
  cases hdec : zlib.decompress self.decoder data self.room with
  | error e => exact ⟨nofun, hlarge⟩
  | ok r =>
    obtain ⟨output, o⟩ := r
    have houtput := hzlib.limited hself.stage.2 hpos hfull hdec
    have hlength : output.length = self.room := by
      rw [houtput, List.length_take]
      exact Nat.min_eq_left hfull
    have hsize := hself.inflatedSize
    dsimp only
    rcases append_cases { self with decoder := o } output with
      ⟨-, self', happend⟩ | ⟨hfits, -⟩
    · rw [happend]
      exact ⟨nofun, hlarge⟩
    · dsimp only at hfits
      omega

/-- The loop over the streams of a chunk. -/
theorem feedLoop_agrees (hzlib : zlib.Decodes decoder stands) {fuel : ℕ} {self : Inflater Obj}
    {s : σ} {out data : Bytes} (hself : Represents zlib stands w encoding self (.inside s) out)
    (hdata : data ≠ []) (hfuel : data.length ≤ fuel) :
    Agrees zlib stands w encoding out (self.feedLoop zlib fuel data)
      ((decoder w).run (several encoding) (.inside s) data) := by
  induction fuel generalizing self s out data with
  | zero => exact absurd (List.length_eq_zero_iff.mp (Nat.le_zero.mp hfuel)) hdata
  | succ fuel ih =>
    by_cases hfull : self.room ≤ ((decoder w).read s data).output.length
    · exact feedLoop_full hzlib hself hdata hfull
    obtain ⟨hpos, hroom⟩ := hself.room
    have hsize := hself.inflatedSize
    rw [Decoder.run_inside]
    unfold Inflater.feedLoop
    rw [if_neg hdata]
    cases hread : (decoder w).read s data with
    | refused o =>
      rw [hread] at hfull
      obtain ⟨e, hdec⟩ := hzlib.refused hself.stage.2 hread (Nat.lt_of_not_le hfull)
      rw [hdec]
      exact ⟨nofun, nofun⟩
    | more s' o =>
      rw [hread] at hfull
      have hlt : o.length < self.room := Nat.lt_of_not_le hfull
      obtain ⟨o', hdec, htail, heof, hstands⟩ := hzlib.more hself.stage.2 hread hlt
      rw [hdec]
      dsimp only
      rcases append_cases { self with decoder := o' } o with
        ⟨hlarge, -⟩ | ⟨-, self', happend, hchunks, hsize', hw, henc, hdecoder, hfinished⟩
      · dsimp only at hlarge
        omega
      dsimp only at hchunks hsize' hw henc hdecoder hfinished
      rw [happend]
      simp only [hdecoder, htail, heof, ne_eq, not_true_eq_false, if_false, Bool.not_false,
        if_true]
      refine ⟨.inside s', o, rfl, ?_⟩
      exact
        { windowBits := hw.trans hself.windowBits
          contentEncoding := henc.trans hself.contentEncoding
          chunks := by rw [hchunks, hself.chunks]
          inflatedSize := by rw [hsize', hself.inflatedSize, List.length_append]
          stage := ⟨hfinished.trans hself.stage.1, by rw [hdecoder]; exact hstands⟩ }
    | ended o rest =>
      rw [hread] at hfull
      have hlt : o.length < self.room := Nat.lt_of_not_le hfull
      obtain ⟨o', hdec, htail, heof, hrest⟩ := hzlib.ended hself.stage.2 hread hlt
      rw [hdec]
      dsimp only
      rcases append_cases { self with decoder := o' } o with
        ⟨hlarge, -⟩ | ⟨-, self', happend, hchunks, hsize', hw, henc, hdecoder, hfinished⟩
      · dsimp only at hlarge
        omega
      dsimp only at hchunks hsize' hw henc hdecoder hfinished
      rw [happend]
      simp only [hdecoder, htail, heof, hrest, ne_eq, not_true_eq_false, if_false, Bool.not_true,
        Bool.false_eq_true]
      have hwindow := hw.trans hself.windowBits
      have hencoding := henc.trans hself.contentEncoding
      have hout : self'.chunks.flatten = out ++ o := by rw [hchunks, hself.chunks]
      have houtSize : self'.inflatedSize = (out ++ o).length := by
        rw [hsize', hself.inflatedSize, List.length_append]
      have hdone : Represents zlib stands w encoding
          { self' with decoder := o', finished := true } .finished (out ++ o) :=
        ⟨hwindow, hencoding, hout, houtSize, rfl, heof⟩
      by_cases hdeflate : encoding = "deflate"
      · rw [if_pos (hencoding.trans hdeflate)]
        refine ⟨.finished, o, ?_, hdone⟩
        simp [several, hdeflate, Decoder.run_finished_single, Decoder.afterOutput]
      rw [if_neg (hencoding ▸ hdeflate)]
      by_cases hnil : rest = []
      · rw [if_pos hnil]
        refine ⟨.finished, o, ?_, hdone⟩
        simp [hnil, Decoder.run, Decoder.afterOutput]
      rw [if_neg hnil]
      have hlater := (decoder w).length_rest_lt hread
      have hseveral : several encoding = true := by simp [several, hdeflate]
      rw [hseveral, (decoder w).run_finished_several hnil, ← hseveral, hwindow]
      have hfresh : Represents zlib stands w encoding
          { self' with windowBits := w, decoder := zlib.decompressobj w }
          (.inside (decoder w).start) (out ++ o) :=
        ⟨rfl, hencoding, hout, houtSize, hfinished.trans hself.stage.1, hzlib.fresh w⟩
      exact (ih hfresh hnil (by omega)).after

theorem feed_agrees (hzlib : zlib.Decodes decoder stands) {self : Inflater Obj}
    {stage : Decoder.Stage σ} {out : Bytes}
    (hself : Represents zlib stands w encoding self stage out) (data : Bytes) :
    Agrees zlib stands w encoding out (self.feed zlib data)
      ((decoder w).run (several encoding) stage data) := by
  unfold Inflater.feed
  by_cases hdata : data = []
  · rw [if_pos hdata, hdata]
    exact ⟨stage, [], rfl, by rw [List.append_nil]; exact hself⟩
  rw [if_neg hdata]
  cases stage with
  | inside s =>
    rw [hself.stage.1]
    exact feedLoop_agrees hzlib hself hdata (Nat.le_refl _)
  | finished =>
    rw [if_pos hself.stage.1, hself.contentEncoding]
    by_cases hdeflate : encoding = "deflate"
    · rw [if_pos hdeflate]
      refine ⟨.finished, [], ?_, by rw [List.append_nil]; exact hself⟩
      simp [several, hdeflate, Decoder.run_finished_single]
    rw [if_neg hdeflate, hself.windowBits]
    have hseveral : several encoding = true := by simp [several, hdeflate]
    rw [hseveral, (decoder w).run_finished_several hdata, ← hseveral]
    have hfresh : Represents zlib stands w encoding
        { self with windowBits := w, decoder := zlib.decompressobj w, finished := false }
        (.inside (decoder w).start) out :=
      ⟨rfl, hself.contentEncoding, hself.chunks, hself.inflatedSize, rfl, hzlib.fresh w⟩
    have hloop := feedLoop_agrees hzlib hfresh hdata (Nat.le_refl _)
    simpa only [hself.windowBits, hself.contentEncoding] using hloop

/-- The chunks are fed as their concatenation would be. -/
theorem feedAll_agrees (hzlib : zlib.Decodes decoder stands) {self : Inflater Obj}
    {stage : Decoder.Stage σ} {out : Bytes}
    (hself : Represents zlib stands w encoding self stage out) (chunks : List Bytes) :
    Agrees zlib stands w encoding out (self.feedAll zlib chunks)
      ((decoder w).run (several encoding) stage chunks.flatten) := by
  induction chunks generalizing self stage out with
  | nil => exact ⟨stage, [], rfl, by rw [List.append_nil]; exact hself⟩
  | cons chunk chunks ih =>
    have hfeed := feed_agrees hzlib hself chunk
    rw [List.flatten_cons, Decoder.run_append]
    unfold Inflater.feedAll
    rcases hout : self.feed zlib chunk with ⟨self', e | u⟩
    · rw [hout] at hfeed
      refine ⟨hfeed.1, fun stage' more hrun => ?_⟩
      obtain ⟨r, hr, hlater⟩ := Option.bind_eq_some_iff.mp hrun
      obtain ⟨r', -, heq⟩ := Option.map_eq_some_iff.mp hlater
      have hlarge := hfeed.2 r.1 r.2 hr
      rw [← (Prod.mk.inj heq).2, List.length_append]
      omega
    · rw [hout] at hfeed
      obtain ⟨stage', more, hrun, hself'⟩ := hfeed
      rw [hrun]
      exact (ih hself').after

/-- Only a body whose last stream has ended is finished. -/
lemma finish_iff (hzlib : zlib.Decodes decoder stands) {self : Inflater Obj}
    {stage : Decoder.Stage σ} {out : Bytes}
    (hself : Represents zlib stands w encoding self stage out) {result : Bytes} :
    (self.finish zlib).2 = .ok result ↔ stage = .finished ∧ result = out := by
  unfold Inflater.finish
  cases stage with
  | inside s => simp [hself.stage.1]
  | finished =>
    obtain ⟨hpos, hroom⟩ := hself.room
    obtain ⟨o, hflush⟩ := hzlib.flushed hself.stage.2 hpos
    have hsize := hself.inflatedSize
    have hcomplete : (!self.finished || !zlib.eof self.decoder) = false := by
      simp [hself.stage.1, hself.stage.2]
    rw [hcomplete, hflush]
    simp only [Bool.false_eq_true, if_false, true_and]
    rcases append_cases { self with decoder := o } [] with
      ⟨hlarge, -⟩ | ⟨-, self', happend, hchunks, -⟩
    · dsimp only [List.length_nil] at hlarge
      omega
    · rw [happend]
      dsimp only at hchunks ⊢
      rw [hchunks, hself.chunks, List.append_nil, Except.ok.injEq, eq_comm]

end calls

/-! ## Whole bodies -/

/-- What a body is, less all chunks: streams one after another under gzip, and under deflate
one stream and whatever follows it. -/
def Decoded (decoder : ℕ → Decoder σ UInt8) (contentEncoding : String) (body out : Bytes) :
    Prop :=
  if contentEncoding = "gzip" then (decoder (maxWbits ||| 16)).Streams body out
  else ∃ rest, (decoder maxWbits).read (decoder maxWbits).start body = .ended out rest

section bodies
variable {zlib : Zlib Obj} {decoder : ℕ → Decoder σ UInt8} {stands : ℕ → Obj → σ → Prop}
  {contentEncoding : String}

/-- A new inflater stands at the start of the decoder whose streams make the body. -/
lemma new_represents (hzlib : zlib.Decodes decoder stands)
    (hencoding : contentEncoding = "gzip" ∨ contentEncoding = "deflate") :
    ∃ self w, Inflater.new zlib contentEncoding = .ok self ∧
      Represents zlib stands w contentEncoding self (.inside (decoder w).start) [] ∧
      ∀ body out, Decoded decoder contentEncoding body out ↔
        (decoder w).run (several contentEncoding) (.inside (decoder w).start) body =
          some (.finished, out) := by
  rcases hencoding with rfl | rfl
  · exact ⟨_, _, rfl, ⟨rfl, rfl, rfl, rfl, rfl, hzlib.fresh _⟩, fun body out =>
      (decoder (maxWbits ||| 16)).streams_iff_run⟩
  · exact ⟨_, _, rfl, ⟨rfl, rfl, rfl, rfl, rfl, hzlib.fresh _⟩, fun body out =>
      (decoder maxWbits).stream_iff_run⟩

/-- The chunks decode to what their concatenation does, if the limit allows it. -/
theorem inflateChunks_iff (hzlib : zlib.Decodes decoder stands)
    (hencoding : contentEncoding = "gzip" ∨ contentEncoding = "deflate") (chunks : List Bytes)
    (out : Bytes) :
    inflateChunks zlib contentEncoding chunks = .ok out ↔
      Decoded decoder contentEncoding chunks.flatten out ∧
        out.length ≤ expressJsonLimitBytes := by
  obtain ⟨self, w, hnew, hself, hdecoded⟩ := new_represents hzlib hencoding
  have hfed := feedAll_agrees hzlib hself chunks
  unfold inflateChunks
  rw [hnew, hdecoded]
  simp only [bind, Except.bind]
  rcases hout : self.feedAll zlib chunks with ⟨self', e | u⟩
  · rw [hout] at hfed
    constructor
    · exact nofun
    · rintro ⟨hrun, hle⟩
      have hlarge := hfed.2 _ _ hrun
      simp only [List.length_nil] at hlarge
      omega
  · rw [hout] at hfed
    obtain ⟨stage, more, hrun, hself'⟩ := hfed
    rw [List.nil_append] at hself'
    have hbound := self'.stored_bounded
    rw [hself'.chunks] at hbound
    dsimp only
    rw [finish_iff hzlib hself', hrun, Option.some.injEq, Prod.mk.injEq]
    constructor
    · rintro ⟨rfl, rfl⟩
      exact ⟨⟨rfl, rfl⟩, hbound⟩
    · rintro ⟨⟨rfl, rfl⟩, -⟩
      exact ⟨rfl, rfl⟩

lemma inflateChunks_terminates (hzlib : zlib.Decodes decoder stands)
    (hencoding : contentEncoding = "gzip" ∨ contentEncoding = "deflate") (chunks : List Bytes) :
    inflateChunks zlib contentEncoding chunks ≠ .error .diverged := by
  obtain ⟨self, w, hnew, hself, -⟩ := new_represents hzlib hencoding
  have hfed := feedAll_agrees hzlib hself chunks
  unfold inflateChunks
  rw [hnew]
  simp only [bind, Except.bind]
  rcases hout : self.feedAll zlib chunks with ⟨self', e | u⟩
  · rw [hout] at hfed
    exact fun h => hfed.1 (Except.error.inj h)
  · dsimp only
    unfold Inflater.finish
    split
    · exact nofun
    · split
      · exact nofun
      · rename_i output o hflush
        rcases append_cases { self' with decoder := o } output with
          ⟨-, self'', happend⟩ | ⟨-, self'', happend, -⟩
        · rw [happend]
          exact nofun
        · rw [happend]
          exact nofun

/-- Fed at once. -/
lemma inflateJsonBody_eq (hencoding : contentEncoding = "gzip" ∨ contentEncoding = "deflate")
    (body : Bytes) :
    inflateJsonBody zlib body contentEncoding = inflateChunks zlib contentEncoding [body] := by
  have hne : contentEncoding ≠ "identity" := by
    rcases hencoding with rfl | rfl <;> decide
  unfold inflateJsonBody inflateChunks
  rw [if_neg hne]
  refine congrArg _ (funext fun self => ?_)
  unfold Inflater.feedAll
  rcases self.feed zlib body with ⟨self', e | u⟩
  · rfl
  · rfl

/-- However a body is split into chunks, the inflater gives what it gives for the whole body, or
fails as it does there: the streams of the body, if they fit. It stores no more than the limit
after any of the chunks. -/
theorem inflater_chunks (zlib : Zlib Obj) (decoder : ℕ → Decoder σ UInt8)
    (stands : ℕ → Obj → σ → Prop) (hzlib : zlib.Decodes decoder stands) (contentEncoding : String)
    (hencoding : contentEncoding = "gzip" ∨ contentEncoding = "deflate")
    (chunks : List Bytes) :
    ((∃ out, inflateChunks zlib contentEncoding chunks = .ok out ∧
        inflateJsonBody zlib chunks.flatten contentEncoding = .ok out) ∨
      ∃ e e', inflateChunks zlib contentEncoding chunks = .error e ∧
        inflateJsonBody zlib chunks.flatten contentEncoding = .error e' ∧
        e ≠ .diverged ∧ e' ≠ .diverged) ∧
    (∀ out, inflateChunks zlib contentEncoding chunks = .ok out ↔
      Decoded decoder contentEncoding chunks.flatten out ∧
        out.length ≤ expressJsonLimitBytes) ∧
    ∀ inflater fed, Inflater.new zlib contentEncoding = .ok inflater → fed <+: chunks →
      (inflater.feedAll zlib fed).1.chunks.flatten.length ≤ expressJsonLimitBytes ∧
      ((inflater.feedAll zlib fed).1.finish zlib).1.chunks.flatten.length ≤
        expressJsonLimitBytes := by
  have hiff := inflateChunks_iff hzlib hencoding
  have hends := inflateChunks_terminates hzlib hencoding
  refine ⟨?_, hiff chunks, fun inflater fed _ _ => ⟨Inflater.stored_bounded _,
    Inflater.stored_bounded _⟩⟩
  rw [inflateJsonBody_eq hencoding]
  cases hchunks : inflateChunks zlib contentEncoding chunks with
  | ok out =>
    refine .inl ⟨out, rfl, (hiff [chunks.flatten] out).mpr ?_⟩
    rw [List.flatten_singleton]
    exact (hiff chunks out).mp hchunks
  | error e =>
    cases hwhole : inflateChunks zlib contentEncoding [chunks.flatten] with
    | ok out =>
      have hdecoded := (hiff [chunks.flatten] out).mp hwhole
      rw [List.flatten_singleton] at hdecoded
      rw [(hiff chunks out).mpr hdecoded] at hchunks
      cases hchunks
    | error e' =>
      refine .inr ⟨e, e', rfl, rfl, ?_, ?_⟩
      · exact fun h => hends chunks (h ▸ hchunks)
      · exact fun h => hends [chunks.flatten] (h ▸ hwhole)

end bodies

/-! ## Two members in four chunks -/

/-- An object of a given decoder, with what zlib leaves over. -/
structure PlainObj (σ : Type) where
  window : ℕ
  state : σ
  unconsumedTail : Bytes
  unusedData : Bytes
  eof : Bool

/-- The objects that decode as `decoder` says. -/
def plainZlib (decoder : ℕ → Decoder σ UInt8) : Zlib (PlainObj σ) where
  decompressobj w := ⟨w, (decoder w).start, [], [], false⟩
  decompress o data limit :=
    match (decoder o.window).read o.state data with
    | .refused out =>
        if out.length < limit then .error "invalid data"
        else .ok (out.take limit, { o with unconsumedTail := data })
    | .more s out =>
        if out.length < limit then .ok (out, ⟨o.window, s, [], [], false⟩)
        else .ok (out.take limit, { o with unconsumedTail := data })
    | .ended out rest =>
        if out.length < limit then .ok (out, ⟨o.window, o.state, [], rest, true⟩)
        else .ok (out.take limit, { o with unconsumedTail := data })
  flush o _ := .ok ([], o)
  unconsumedTail := PlainObj.unconsumedTail
  unusedData := PlainObj.unusedData
  eof := PlainObj.eof

lemma plainZlib_decodes (decoder : ℕ → Decoder σ UInt8) :
    (plainZlib decoder).Decodes decoder fun w o s => o.window = w ∧ o.state = s where
  fresh w := ⟨rfl, rfl⟩
  more := by
    rintro w o s data limit s' out ⟨rfl, rfl⟩ hread hlt
    simp [plainZlib, hread, hlt]
  ended := by
    rintro w o s data limit out rest ⟨rfl, rfl⟩ hread hlt
    simp [plainZlib, hread, hlt]
  refused := by
    rintro w o s data limit out ⟨rfl, rfl⟩ hread hlt
    simp [plainZlib, hread, hlt]
  limited := by
    rintro w o s data limit out o' ⟨rfl, rfl⟩ - hfull hdec
    simp only [plainZlib] at hdec
    split at hdec
    all_goals
      rename_i hread
      rw [hread] at hfull ⊢
      dsimp only [Reading.output] at hfull ⊢
      rw [if_neg (Nat.not_lt_of_le hfull)] at hdec
      exact (Prod.mk.inj (Except.ok.inj hdec)).1.symm
  flushed := fun _ _ => ⟨_, rfl⟩

/-- The one stream of a list, byte by byte with what each byte completes. -/
def listed (stream : List (UInt8 × Bytes)) : Decoder (List (UInt8 × Bytes)) UInt8 where
  start := stream
  next
    | [], _ => none
    | (b, out) :: left, b' => if b = b' then some (left, out) else none
  ended := List.isEmpty

/-- The gzip member of the text `1`. -/
def memberOfOne : List (UInt8 × Bytes) :=
  [(31, []), (139, []), (8, []), (0, []), (0, []), (0, []), (0, []), (0, []), (2, []), (3, []),
    (51, []), (4, [49]), (0, []), (183, []), (239, []), (220, []), (131, []), (1, []), (0, []),
    (0, []), (0, [])]

/-- The zlib stream of the same text. -/
def streamOfOne : List (UInt8 × Bytes) :=
  [(120, []), (218, []), (51, []), (4, [49]), (0, []), (0, []), (50, []), (0, []), (50, [])]

def decoderOfOne (w : ℕ) : Decoder (List (UInt8 × Bytes)) UInt8 :=
  if w = maxWbits ||| 16 then listed memberOfOne else listed streamOfOne

def gzipOfOne : Bytes := memberOfOne.map Prod.fst

/-- Two members, split within each of them, with an empty chunk between. -/
theorem two_members :
    inflateChunks (plainZlib decoderOfOne) "gzip"
      [gzipOfOne.take 11, gzipOfOne.drop 11 ++ gzipOfOne.take 3, [], gzipOfOne.drop 3] =
        .ok [49, 49] := by
  refine ((inflater_chunks (plainZlib decoderOfOne) decoderOfOne _ (plainZlib_decodes _) "gzip"
    (.inl rfl) _).2.1 [49, 49]).mpr ⟨?_, by decide⟩
  have hread : ∀ rest, (decoderOfOne (maxWbits ||| 16)).read
      (decoderOfOne (maxWbits ||| 16)).start (gzipOfOne ++ rest) = .ended [49] rest :=
    fun _ => rfl
  have hone : (decoderOfOne (maxWbits ||| 16)).Streams gzipOfOne [49] := .last (hread [])
  exact .cons (hread gzipOfOne) (by decide) hone

end WiseacctSso.BoundedInflater
