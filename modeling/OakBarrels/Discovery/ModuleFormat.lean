import OakBarrels.Lib.Octets

/-!
# Container formats

What a file is, from its leading bytes.
-/

open Octets

namespace OakBarrels.Discovery

inductive ModuleFormat
  | unknown
  | portableExecutable
  | elf
  | machO
deriving DecidableEq, Repr

def isLoadableModuleFormat (format : ModuleFormat) : Bool := format ≠ .unknown

def kModuleHeaderBytes : Nat := 1024

def kPeSignaturePointerOffset : Nat := 0x3c

def kPeSignatureLength : Nat := 4

def readLittleEndian32 : Bytes → UInt32
  | b0 :: b1 :: b2 :: b3 :: _ => ofLittleEndian b0 b1 b2 b3
  | _ => 0

def readBigEndian32 : Bytes → UInt32
  | b0 :: b1 :: b2 :: b3 :: _ => ofLittleEndian b3 b2 b1 b0
  | _ => 0

def startsWith (data magic : Bytes) : Bool := magic.isPrefixOf data

def looksLikePortableExecutable (data : Bytes) : Bool :=
  if data.length < kPeSignaturePointerOffset + 4 then false
  else if ¬ startsWith data (ascii "MZ") then false
  else
    let signatureOffset := (readLittleEndian32 (data.drop kPeSignaturePointerOffset)).toNat
    if data.length < signatureOffset + kPeSignatureLength then false
    else startsWith (data.drop signatureOffset) [ch 'P', ch 'E', 0, 0]

def looksLikeElf (data : Bytes) : Bool := startsWith data (0x7f :: ascii "ELF")

def looksLikeMachO (data : Bytes) : Bool :=
  if data.length < 4 then false
  else readBigEndian32 data ∈
    [0xfeedface, 0xfeedfacf, 0xcefaedfe, 0xcffaedfe, 0xcafebabe, 0xcafebabf]

def identifyModuleFormat (header : Bytes) : ModuleFormat :=
  if header.length < 4 then .unknown
  else if looksLikeElf header then .elf
  else if looksLikeMachO header then .machO
  else if looksLikePortableExecutable header then .portableExecutable
  else .unknown

end OakBarrels.Discovery
