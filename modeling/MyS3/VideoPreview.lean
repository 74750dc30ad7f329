import Mathlib.Algebra.Order.Ring.Unbundled.Rat
import MyS3.Library.Runs

/-!
The transcoded video preview of the web UI, `static/video-preview.js`. A loop encodes one slice
of the video after another and appends it to the source buffer. Every `await` suspends what
awaits, and what the browser then shows is part of the next step. The download of the video, the
texts of the status line and the native player are left out. Times are exact.
-/

namespace MyS3.VideoPreview

def sliceSec : ℚ := 4

def bufferAheadSec : ℚ := 16

/-- What a step reads of ffmpeg, of the signal and of the player. -/
structure View where
  loaded : Bool
  aborted : Bool
  /-- The media source is open. -/
  isOpen : Bool
  currentTime : ℚ
  buffered : List (ℚ × ℚ)
  deriving DecidableEq

namespace View

def forwardBufferedEnd (v : View) : ℚ :=
  let furthest := v.buffered.foldl
    (fun furthest range =>
      if range.1 ≤ v.currentTime + 1 / 2 then max furthest range.2 else furthest) 0
  if furthest = 0 then (v.buffered.getLast?.map Prod.snd).getD 0 else furthest

def ahead (v : View) : ℚ := v.forwardBufferedEnd - v.currentTime

/-- The test of `_onSeek`: the player stands in a buffered range. -/
def inBuffered (v : View) : Bool :=
  v.buffered.any fun range =>
    decide (range.1 ≤ v.currentTime) && decide (v.currentTime ≤ range.2 + 3 / 20)

end View

/-- The awaits of `_produceNextSlice`, in the order of the source. -/
inductive Stage
  | exec
  /-- The file of an outdated slice is deleted. -/
  | deleteStale
  | execNoAudio
  | readFile
  /-- The file is deleted, whatever came of its reading. -/
  | deleteFile (data : Option Nat)
  /-- `_appendBuffer` found the media source closed. -/
  | skipped
  /-- The append waits for its turn in `_appendChain`. -/
  | queued
  | appending
  | endStream
  deriving DecidableEq

/-- A call of `_produceNextSlice` that is suspended. -/
structure Slice where
  gen : Nat
  start : ℚ
  stage : Stage
  deriving DecidableEq

inductive Result
  | ok
  | done
  | wait
  | threw
  deriving DecidableEq

inductive Progress
  | suspended (c : Slice)
  | returned (result : Result)
  deriving DecidableEq

/-- What an awaited call gives: the code of ffmpeg, the size of a file, or only its end. -/
inductive Reply
  | code (code : Int)
  | data (size : Nat)
  | settled
  | failed
  deriving DecidableEq

inductive LoopStage
  | slice (p : Progress)
  | waitFor
  /-- The loop has returned, and `_producing` is not reset yet. -/
  | over
  deriving DecidableEq

/-- A run of `_produceLoop`, for as long as `_producing` is set. -/
structure Loop where
  gen : Nat
  stage : LoopStage
  deriving DecidableEq

/-- The generation of an appended slice, and the one of the session at that time. -/
structure Append where
  slice : Nat
  session : Nat
  deriving DecidableEq

/-- Who awaits a slice: `start` its first one, and the loop all others. -/
inductive Runner
  | start
  | loop
  deriving DecidableEq

/-- The preview session from its first slice on. -/
structure Session where
  duration : ℚ
  destroyed : Bool
  generation : Nat
  nextStart : ℚ
  first : Option Progress
  loop : Option Loop
  /-- The handlers of a seek that wait for the source buffer. -/
  waiting : Nat
  /-- The handlers of a seek that empty the source buffer. -/
  removing : Nat
  appends : List Append
  /-- The generations that a loop was started for. -/
  started : List Nat
  deriving DecidableEq

inductive Event
  | seeking
  | timeupdate
  | destroy
  | seekWaited (hasRanges : Bool)
  | seekRemoved
  | sliceReply (who : Runner) (reply : Reply)
  | sliceReturned (who : Runner)
  | loopWaited
  | loopSettled
  deriving DecidableEq

/-- A turn of the event loop: what happens, and what the browser shows then. -/
structure Turn where
  view : View
  event : Event

namespace Session

def producing (s : Session) : Bool := s.loop.isSome

/-- `_produceNextSlice` up to its first await. -/
def produceNextSlice (s : Session) (v : View) : Progress :=
  if v.loaded = false ∨ v.aborted = true ∨ s.destroyed = true then .returned .threw
  else if 0 < s.duration ∧ s.duration - 1 / 20 ≤ s.nextStart then
    .suspended ⟨s.generation, s.nextStart, .endStream⟩
  else if bufferAheadSec ≤ v.ahead ∧ v.buffered ≠ [] then .returned .wait
  else .suspended ⟨s.generation, s.nextStart, .exec⟩

/-- The test of `_produceNextSlice` after an encoding and after an append. -/
def isStale (s : Session) (c : Slice) : Bool := s.destroyed || s.generation != c.gen

def isClosed (s : Session) (v : View) : Bool := s.destroyed || !v.isOpen

end Session

/-- What `_produceNextSlice` does without an encoded file. -/
def Slice.giveUp (c : Slice) : Progress :=
  if c.start = 0 then .returned .threw else .suspended { c with stage := .endStream }

namespace Session

def finishSlice (s : Session) (c : Slice) : Progress :=
  if s.isStale c then .returned .done else .returned .ok

/-- `_produceNextSlice` from one await to the next. -/
def resume (s : Session) (v : View) (c : Slice) (reply : Reply) : Option Progress :=
  match c.stage, reply with
  | .exec, .code code =>
      if s.isStale c then some (.suspended { c with stage := .deleteStale })
      else if code = 0 then some (.suspended { c with stage := .readFile })
      else some (.suspended { c with stage := .execNoAudio })
  | .exec, .failed => some (.returned .threw)
  | .deleteStale, .settled => some (.returned .done)
  | .execNoAudio, .code code =>
      -- the generation is not compared again
      if code = 0 then some (.suspended { c with stage := .readFile }) else some c.giveUp
  | .execNoAudio, .failed => some (.returned .threw)
  | .readFile, .data size => some (.suspended { c with stage := .deleteFile (some size) })
  | .readFile, .failed => some (.suspended { c with stage := .deleteFile none })
  | .deleteFile none, .settled => some (.returned .threw)
  | .deleteFile (some size), .settled =>
      if size = 0 then some c.giveUp
      else if s.isClosed v then some (.suspended { c with stage := .skipped })
      else some (.suspended { c with stage := .queued })
  | .skipped, .settled => some (s.finishSlice c)
  | .queued, .settled =>
      if s.isClosed v then some (s.finishSlice c)
      else some (.suspended { c with stage := .appending })
  | .queued, .failed => some (.returned .threw)
  | .appending, .settled => some (s.finishSlice c)
  | .appending, .failed => some (.returned .threw)
  | .endStream, .settled => some (.returned .done)
  | _, _ => none

/-- The head of the `while` in `_produceLoop`, up to the next await. -/
def loopHead (s : Session) (v : View) (gen : Nat) : Loop :=
  if s.destroyed = false ∧ s.generation = gen then ⟨gen, .slice (s.produceNextSlice v)⟩
  else ⟨gen, .over⟩

def kickProduce (s : Session) (v : View) : Session :=
  if s.producing || s.destroyed then s
  else
    { s with loop := some (s.loopHead v s.generation), started := s.generation :: s.started }

/-- `_onSeek` up to its first await. -/
def onSeek (s : Session) (v : View) : Session :=
  if s.destroyed then s
  else if v.inBuffered then s.kickProduce v
  else
    let s := { s with
      generation := s.generation + 1
      nextStart := max 0 ((v.currentTime / sliceSec).floor * sliceSec) }
    if v.isOpen then { s with waiting := s.waiting + 1 } else s.kickProduce v

def destroy (s : Session) : Session :=
  { s with destroyed := true, generation := s.generation + 1 }

def progress (s : Session) : Runner → Option Progress
  | .start => s.first
  | .loop =>
    match s.loop with
    | some ⟨_, .slice p⟩ => some p
    | _ => none

def setLoopStage (s : Session) (stage : LoopStage) : Session :=
  { s with loop := s.loop.map fun l => { l with stage := stage } }

def setProgress (s : Session) (who : Runner) (p : Progress) : Session :=
  match who with
  | .start => { s with first := some p }
  | .loop => s.setLoopStage (.slice p)

/-- What a slice changes of the session when it goes on. -/
def record (s : Session) (c : Slice) (p : Progress) : Session :=
  if p = .suspended { c with stage := .appending } then
    { s with appends := ⟨c.gen, s.generation⟩ :: s.appends }
  else if p = .returned .ok then { s with nextStart := c.start + sliceSec }
  else s

def sliceReply (s : Session) (v : View) (who : Runner) (reply : Reply) : Option Session :=
  match s.progress who with
  | some (.suspended c) =>
    (s.resume v c reply).map fun p => (s.record c p).setProgress who p
  | _ => none

/-- What follows the await of `_produceNextSlice`. A session whose first slice throws is
destroyed by `play`. -/
def sliceReturned (s : Session) (v : View) (who : Runner) : Option Session :=
  match who, s.progress who with
  | .start, some (.returned .threw) => some { s with first := none }.destroy
  | .start, some (.returned _) => some ({ s with first := none }.kickProduce v)
  | .loop, some (.returned .ok) =>
    some { s with loop := s.loop.map fun l => s.loopHead v l.gen }
  | .loop, some (.returned .wait) => some (s.setLoopStage .waitFor)
  | .loop, some (.returned _) => some (s.setLoopStage .over)
  | _, _ => none

/-- `waitFor` rejects when the signal is aborted, and else waits for its condition. -/
def loopWaited (s : Session) (v : View) : Option Session :=
  match s.loop with
  | some ⟨gen, .waitFor⟩ =>
    if v.aborted then some (s.setLoopStage .over)
    else if s.destroyed = true ∨ s.generation ≠ gen ∨ v.ahead < bufferAheadSec * (3 / 5) then
      some { s with loop := some (s.loopHead v gen) }
    else none
  | _ => none

def loopSettled (s : Session) : Option Session :=
  match s.loop with
  | some ⟨_, .over⟩ => some { s with loop := none }
  | _ => none

def seekWaited (s : Session) (v : View) (hasRanges : Bool) : Option Session :=
  if s.waiting = 0 then none
  else
    let s := { s with waiting := s.waiting - 1 }
    if hasRanges then some { s with removing := s.removing + 1 } else some (s.kickProduce v)

def seekRemoved (s : Session) (v : View) : Option Session :=
  if s.removing = 0 then none
  else some ({ s with removing := s.removing - 1 }.kickProduce v)

def step (s : Session) (a : Turn) : Option Session :=
  match a.event with
  | .seeking => some (s.onSeek a.view)
  | .timeupdate => some (s.kickProduce a.view)
  | .destroy => some s.destroy
  | .seekWaited hasRanges => s.seekWaited a.view hasRanges
  | .seekRemoved => s.seekRemoved a.view
  | .sliceReply who reply => s.sliceReply a.view who reply
  | .sliceReturned who => s.sliceReturned a.view who
  | .loopWaited => s.loopWaited a.view
  | .loopSettled => s.loopSettled

end Session

/-- The session when `start` awaits its first slice. -/
def opened (duration : ℚ) (v : View) : Session :=
  let s : Session :=
    { duration := duration, destroyed := false, generation := 0, nextStart := 0, first := none,
      loop := none, waiting := 0, removing := 0, appends := [], started := [] }
  { s with first := some (s.produceNextSlice v) }

end MyS3.VideoPreview
