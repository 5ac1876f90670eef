import TradingEngine.Common.Basic
import TradingEngine.Library.CircularMemory
import TradingEngine.Library.Exec

/-! The logger's ring, between a thread that calls `Emit` and the thread of `WriterLoop`.
Every access to an atomic variable is a step of its own, and so are the writing of a
record and its printing; a run is any interleaving of the steps of the two threads. -/

set_option autoImplicit false

namespace TradingEngine

open Library.CircularMemory

inductive LogLevel where
  | kDebug
  | kInfo
  | kWarn
  | kError
  deriving DecidableEq, Repr

namespace AsyncLogger

def kRingCapacity : Nat := 4096
def kMaxMessageLen : Nat := 256

def levelName : LogLevel → Text
  | .kDebug => "DEBUG".toList
  | .kInfo => "INFO".toList
  | .kWarn => "WARN".toList
  | .kError => "ERROR".toList

/-- A call of `Emit`, with the time its record gets. -/
structure Message where
  level : LogLevel
  message : Bytes
  functionName : Text
  now : Int
  deriving DecidableEq, Repr

/-- A slot of the ring; `data` are its 256 bytes, of which `len` are the message. -/
structure Record where
  timestamp : Int
  functionName : Text
  level : LogLevel
  len : Nat
  data : Bytes
  deriving DecidableEq, Repr

def Record.empty : Record := ⟨0, [], .kInfo, 0, List.replicate kMaxMessageLen 0⟩

/-- `std::memcpy` of the first `n` bytes. -/
def memcpy (data source : Bytes) (n : Nat) : Bytes := source.take n ++ data.drop n

def Record.write (record : Record) (message : Message) : Record :=
  let n := min message.message.length kMaxMessageLen
  { timestamp := message.now
    functionName := message.functionName
    level := message.level
    data := memcpy record.data message.message n
    len := n % 2 ^ 16 }

/-- What the writer prints: a number of dropped messages, or a record. -/
inductive Line where
  | dropped (count : Nat)
  | record (timestampMs : Int) (level functionName : Text) (text : Bytes)
  deriving DecidableEq, Repr

/-- The time of a record, in nanoseconds, as the milliseconds printed for it. -/
def timestampMs (timestamp : Int) : Int := (timestamp + 8 * 3600 * 10 ^ 9).tdiv (10 ^ 6)

def Record.line (record : Record) : Line :=
  .record (timestampMs record.timestamp) (levelName record.level) record.functionName (record.data.take record.len)

/-- Where a call of `Emit` stands, by what it did last. -/
inductive Producer where
  | idle
  | tailLoaded (message : Message) (tail : Nat)
  | foundFull (message : Message)
  | headLoaded (message : Message) (tail : Nat)
  | recordWritten (message : Message) (tail : Nat)
  | destroyed
  deriving DecidableEq, Repr

/-- Where `WriterLoop` stands. -/
inductive Writer where
  | top
  | exchanged
  | headLoaded (head : Nat)
  | foundEmpty
  | recordSeen (head : Nat)
  | recordPrinted (head : Nat)
  | exited
  deriving DecidableEq, Repr

/-- The logger, with the messages stored in the ring so far, the number of slots given
back, and the number of messages refused. -/
structure Logger where
  ring : Nat → Record
  head : Nat
  tail : Nat
  droppedCount : Nat
  running : Bool
  producer : Producer
  writer : Writer
  output : List Line
  accepted : List Message
  released : Nat
  refused : Nat

def start : Logger := ⟨fun _ => .empty, 0, 0, 0, true, .idle, .top, [], [], 0, 0⟩

/-- The next access of `Emit`. -/
def produce (logger : Logger) : Option Logger :=
  match logger.producer with
  | .idle | .destroyed => none
  | .tailLoaded message tail =>
      let nextTail := (tail + 1) % kRingCapacity
      if nextTail = logger.head then some { logger with producer := .foundFull message }
      else some { logger with producer := .headLoaded message tail }
  | .foundFull _ =>
      some { logger with
        droppedCount := (logger.droppedCount + 1) % 2 ^ 64
        refused := logger.refused + 1
        producer := .idle }
  | .headLoaded message tail =>
      some { logger with
        ring := store logger.ring tail [(logger.ring tail).write message]
        producer := .recordWritten message tail }
  | .recordWritten message tail =>
      some { logger with
        tail := (tail + 1) % kRingCapacity
        accepted := logger.accepted ++ [message]
        producer := .idle }

/-- The next access of `WriterLoop`. -/
def write (logger : Logger) : Option Logger :=
  match logger.writer with
  | .top =>
      some { logger with
        droppedCount := 0
        output := logger.output ++ if 0 < logger.droppedCount then [.dropped logger.droppedCount] else []
        writer := .exchanged }
  | .exchanged => some { logger with writer := .headLoaded logger.head }
  | .headLoaded head =>
      some { logger with writer := if head = logger.tail then .foundEmpty else .recordSeen head }
  | .foundEmpty => some { logger with writer := if logger.running then .top else .exited }
  | .recordSeen head =>
      some { logger with
        output := logger.output ++ [(logger.ring head).line]
        writer := .recordPrinted head }
  | .recordPrinted head =>
      some { logger with
        head := (head + 1) % kRingCapacity
        released := logger.released + 1
        writer := .top }
  | .exited => none

/-- A step of the thread that logs, which may call `Emit` or destroy the logger when it
is in no call, or a step of the writer. -/
inductive Turn where
  | emit (message : Message)
  | destroy
  | produce
  | write

def advance : Turn → Logger → Option Logger
  | .emit message, logger =>
      if logger.producer = .idle then some { logger with producer := .tailLoaded message logger.tail } else none
  | .destroy, logger =>
      if logger.producer = .idle then some { logger with running := false, producer := .destroyed } else none
  | .produce, logger => produce logger
  | .write, logger => write logger

/-- A turn of a thread that can take it. -/
def step (turn : Turn) : EStateM PUnit Logger PUnit := fun logger =>
  match advance turn logger with
  | some next => .ok .unit next
  | none => .error .unit logger

/-!
## What was printed
-/

def Line.isRecord : Line → Bool
  | .dropped _ => false
  | .record .. => true

/-- The records printed. -/
def records (output : List Line) : List Line := output.filter Line.isRecord

def Line.count : Line → Nat
  | .dropped count => count
  | .record .. => 0

/-- The sum of the numbers of dropped messages printed. -/
def reported (output : List Line) : Nat := (output.map Line.count).sum

/-- What is to be printed for a message. -/
def Message.line (message : Message) : Line :=
  .record (timestampMs message.now) (levelName message.level) message.functionName
    (message.message.take kMaxMessageLen)

end AsyncLogger

end TradingEngine
