import Mathlib.Data.UInt

/-!
# Transcoding

A transcription of the transforms of samples: `BasicDecimator.hpp`, `BasicInterpolator.hpp`,
`MonoToStereo.cpp`, `NullTransform.cpp` and `TransformComposite.cpp`, the templates in the
instances that `TransformFactory.cpp` makes. An address is a place in the memory; `size_t` and
`unsigned` have 32 bits.
-/

namespace MuditaOS.Transcode

/-! ## Memory -/

abbrev Memory := Nat → UInt8

namespace Memory

variable (memory : Memory) (address : Nat)

/-- A `std::uint16_t`, the lower byte first. -/
def read16 : UInt16 := (memory address).toUInt16 + 256 * (memory (address + 1)).toUInt16

def write16 (value : UInt16) : Memory := fun a =>
  if a = address then value.toUInt8
  else if a = address + 1 then (value / 256).toUInt8
  else memory a

end Memory

structure Span where
  data : Nat
  dataSize : UInt32
  deriving DecidableEq, Repr

/-! ## Transforms -/

inductive Transform where
  | null
  | basicDecimator
  | basicInterpolator
  | monoToStereo
  deriving DecidableEq, Repr

namespace Transform

/-- `Ratio`. -/
def ratio : UInt32 := 2

def transformBlockSize (t : Transform) (blockSize : UInt32) : UInt32 :=
  match t with
  | .null => blockSize
  | .basicDecimator => blockSize / ratio
  | .basicInterpolator => blockSize * ratio
  | .monoToStereo => 2 * blockSize

def transformBlockSizeInverted (t : Transform) (blockSize : UInt32) : UInt32 :=
  match t with
  | .null => blockSize
  | .basicDecimator => blockSize * ratio
  | .basicInterpolator => blockSize / ratio
  | .monoToStereo => blockSize / 2

/-- The loop of the decimator. -/
def decimate (input output : Nat) (count : Nat) (memory : Memory) : Memory :=
  (List.range count).foldl (fun memory i =>
    memory.write16 (output + 2 * i) (memory.read16 (input + 2 * (i * 2)))) memory

/-- The loops of the interpolator, down from `count` and up to the ratio. -/
def interpolate (input output : Nat) (count : Nat) (memory : Memory) : Memory :=
  (List.range' 1 count).reverse.foldl (fun memory i =>
    (List.range' 1 2).foldl (fun memory j =>
      memory.write16 (output + 2 * (i * 2 - j)) (memory.read16 (input + 2 * (i - 1)))) memory)
    memory

/-- The value of the inner assignment is the value of the outer one. -/
def duplicate (input output : Nat) (count : Nat) (memory : Memory) : Memory :=
  (List.range' 1 count).reverse.foldl (fun memory i =>
    let value := memory.read16 (input + 2 * (i - 1))
    (memory.write16 (output + 2 * (i * 2 - 2)) value).write16 (output + 2 * (i * 2 - 1)) value)
    memory

def transform (t : Transform) (memory : Memory) (input transformSpace : Span) : Span × Memory :=
  let outputSpan : Span := ⟨transformSpace.data, t.transformBlockSize input.dataSize⟩
  match t with
  | .null => (input, memory)
  | .basicDecimator =>
      (outputSpan,
        decimate input.data outputSpan.data (input.dataSize / 2 / ratio).toNat memory)
  | .basicInterpolator =>
      (outputSpan, interpolate input.data outputSpan.data (input.dataSize / 2).toNat memory)
  | .monoToStereo =>
      (outputSpan, duplicate input.data transformSpace.data (input.dataSize / 2).toNat memory)

end Transform

/-- What the factory makes: one transform, or a `TransformComposite` of some. -/
inductive AnyTransform where
  | single (transform : Transform)
  | composite (children : List Transform)
  deriving DecidableEq, Repr

namespace AnyTransform

/-- The transforms that are executed one after the other. -/
def children : AnyTransform → List Transform
  | .single transform => [transform]
  | .composite children => children

def transformBlockSize (t : AnyTransform) (blockSize : UInt32) : UInt32 :=
  match t with
  | .single transform => transform.transformBlockSize blockSize
  | .composite children =>
      children.foldl (fun transformedBlockSize t => t.transformBlockSize transformedBlockSize)
        blockSize

def transformBlockSizeInverted (t : AnyTransform) (blockSize : UInt32) : UInt32 :=
  match t with
  | .single transform => transform.transformBlockSizeInverted blockSize
  | .composite children =>
      children.foldl
        (fun transformedBlockSize t => t.transformBlockSizeInverted transformedBlockSize) blockSize

def transform (t : AnyTransform) (memory : Memory) (input conversionSpace : Span) :
    Span × Memory :=
  match t with
  | .single transform => transform.transform memory input conversionSpace
  | .composite children =>
      children.foldl (fun (output, memory) t => t.transform memory output conversionSpace)
        (input, memory)

end AnyTransform

/-! ## The factory -/

structure AudioFormat where
  sampleRate : UInt32
  bitWidth : UInt32
  channels : UInt32
  deriving DecidableEq, Repr

inductive Failure where
  | runtimeError (what : String)
  | invalidArgument (what : String)
  /-- The remainder of a rate by zero. -/
  | divisionByZero
  deriving DecidableEq, Repr

namespace TransformFactory

def supportedSampleRateCoversionRatio : UInt32 := 2

def supportedBitWidth : UInt32 := 16

def supportedChannelCount : UInt32 := 1

def getSamplerateTransform (sourceFormat sinkFormat : AudioFormat) : Except Failure Transform :=
  let sourceRate := sourceFormat.sampleRate
  let sinkRate := sinkFormat.sampleRate
  let greater := max sourceRate sinkRate
  let lesser := min sourceRate sinkRate
  if lesser = 0 then .error .divisionByZero
  else if greater % lesser ≠ 0 then
    .error (.invalidArgument "Sample rate conversion is not supported")
  else if greater / lesser ≠ supportedSampleRateCoversionRatio then
    .error (.invalidArgument "Sample rate conversion is not supported (ratio != 2)")
  else if sourceFormat.bitWidth ≠ supportedBitWidth then
    .error (.invalidArgument
      "Sample rate conversion with bit width other than 16 is not supported")
  else if sourceFormat.channels ≠ supportedChannelCount then
    .error (.invalidArgument "Sample rate conversion supported with mono only")
  else if sinkRate < sourceRate then .ok .basicDecimator
  else .ok .basicInterpolator

def getChannelsTransform (sourceFormat sinkFormat : AudioFormat) : Except Failure Transform :=
  if sourceFormat.channels = 1 ∧ sinkFormat.channels = 2 ∧ sourceFormat.bitWidth = 16 then
    .ok .monoToStereo
  else .error (.invalidArgument "Channels conversion is not supported")

def makeTransform (sourceFormat sinkFormat : AudioFormat) : Except Failure AnyTransform :=
  if sourceFormat = sinkFormat then .ok (.single .null)
  else if sourceFormat.bitWidth ≠ sinkFormat.bitWidth then
    .error (.runtimeError "Bitwidth conversion is not implemented")
  else do
    let transforms ←
      if sourceFormat.sampleRate ≠ sinkFormat.sampleRate then
        (fun t => [t]) <$> getSamplerateTransform sourceFormat sinkFormat
      else pure []
    let transforms ←
      if sourceFormat.channels ≠ sinkFormat.channels then
        (fun t => transforms ++ [t]) <$> getChannelsTransform sourceFormat sinkFormat
      else pure transforms
    match transforms with
    | [transform] => pure (.single transform)
    | transforms => pure (.composite transforms)

end TransformFactory

end MuditaOS.Transcode
