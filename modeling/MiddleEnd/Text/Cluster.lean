import MiddleEnd.Text.Ranges
import MiddleEnd.Text.Utf8

/-!
Characters as a reader counts them: a letter with its accents, a syllable of Hangul, a flag and a
joined pictograph are one cluster each.
-/

namespace MiddleEnd.Text

/-- Marks that are drawn over the character before them. -/
def joiningRanges : Ranges := .ofString
  "300-6f 114-6 108-2c 2 2-1 2-1 2 49-a 31-14 11 66-6 3-5 3-1 2-3 24 1f-1a 5c-a 3b-8 a 19-3 2-8 2-2
   2-4 2c-2 3d-7 2b-17 2-1f 38 2 5-7 5 4-6 b-1 1e 3b 2 3-3 9 a b-1 1b 3-1 3a 5-1 5-1 3-2 4 1f-1 4
   c-1 3a 5-4 2-1 5 15-1 17-5 2 3b 2-1 2-3 9 8-2 b-1 1f 3c 2 d a 29 4 38 2-2 6-2 2-3 8-1 c-1 1e 3b
   3 3 4 6-1 8-1 c-1 1d-1 3a-1 2 3-3 9 a b-1 1e 49 5 3-2 2 9 52 3-6 d-7 63 3-8 c-6 4a-1 1c 2 2 38-d
   2-4 2-1 6-a 2-23 a 67-3 2-5 2-1 3-1 1a-1 5-2 11-3 e 3-1 7 10 2c0-2 3b3-2 1e-1 1f-1 1f-1 41-1 2-6
   9 3-a a 2e-2 2 76-1 23 77-2 5-1 a 7-2 dc-1 3 3b 2-6 2 2 3-7 7-9 3 31-1e 32-3 31-6 2 6 29-8 d-1
   21-3 3-1 2-2 39 2-1 4 2-2 3b-7 3-1 99-2 2-c 2-6 5 7 4-1 c7-3f 20d-1 c3-20 bff-2 8e 61-1f 22b-5
   6a-1 75d5-3 2-9 21-1 51-1 111 4 5 1a-1 6 98-1 1b-11 e 27-7 1a-a 2f-2 31 3-3 3-1 28 44-5 3-1 3-1
   d 9 30 34 2-2 3-1 6-1 2 2b-1 9 ef 3 5 4f31 2e2-f 11-f 16f-1 25e e3 96-4 687-2 2-1 6-3 29-2 5
   a6-1 23e-3 184-1 51-2 47-a 32-3 7c 37-e 2a 3-1 b-2 32-3 3-1 8 3e-2 25-4 2-7 3f d-1 35-8 b-3 3
   60-2 3 2-1 7 3 9e 4-7 16-1 3a-1 2 2 17 f-6 4-4 c4-7 3-2 2 18 52 3-5 2 3 2-1 2-1 ec 3-3 7-1 2-1
   1c-1 56-7 3 2-1 6b 2 3-5 2 66-2 3-3 2-4 104-8 2-1 f6 b-1 2 5 91-3 3-1 5 21-9 29-5 3-3 9 a-5 3-2
   2f-c 2-1 197-6 2-5 2 53-15 3-6 2-1 2-1 7b-5 4 2-1 2-6 2 49-1 4 2 15c-1 c-1 35-4 6 2 14fe 7-e
   369b-4 3c-6 419 40-3 52 4cb9-1 1262-2d 3-16 21f 2-2 5-4 9-7 3-6 1f-3 95-2 7bc-36 5-31 9 f 17-4
   2-e 551-6 2-10 3-6 2-1 2-4 65 a1-6 178 3e-3 1fd-3 3e1-6 6e-6 ab1-4 c0c21-5f 81-ef"

/-- Marks that stand behind the character that they belong to. -/
def spacingRanges : Ranges := .ofString
  "903 38 3-2 9-3 2-1 33-1 3c-1 7-1 3-1 37 3b-2 43 3b-2 9 2-1 36-1 3d 7-1 3-1 73 2-1 4-2 2-2 35-2
   3e-3 3e-1 3b 2-1 2-1 3-1 2-1 28 f-1 3c-1 6-2 2-2 36-1 4d-1 7-6 14-1 40 80 8b-1 40 b2 a-1 1a-1 2d
   691 1f 82 8-7 2-1 15b-3 3-2 5-1 2-5 e1-1 3b 2 16-5 92 37 2-4 2-1 3e 1f 5-1 3 3d 3-2 2 4-1 31-7
   9-1 ac 16 8b2c-1 3 59-1 33-f 8f-1 30 31-1 5-1 3-2 6f-1 3-1 19 9e 3-1 6 ee-1 2-1 2-1 2 6414 2 80
   2e-2 5-1 74 19-1 3c 31-2 a-1 e 5e-2 4-1 2 ab-2 20-1 3c 2-3 3-1 3-2 15-1 d2-2 9-1 4 6c-1 7 2-1 2
   3 ef-1 7-3 3 72-2 9-1 2 6e 2-1 7 70 106-2 a f9-4 2-1 5 3 2 8f-2 9-3 5 55 1e-1 3f 198 f 6b 8 3
   d6-4 5-1 2 15f-1 d 31-1 9-1 2 5010-36 69-1 6175 7"

/-- Characters that stand alone: controls, line and paragraph separators and format controls. -/
def controlRanges : Ranges := .ofString
  "0-1f 60-20 e 56f 11f2 7fd 3-1 19-6 32-f de90 f1-b 3435-f 8861-3 14d0-7 c2e86-1f 61-7f f1-e0f"

def leadingRanges : Ranges := .ofString
  "600-5 d8 32 181-1 51 46c 1036f 10 f5-1 77c 2 f9 4a-5 2bd 1bc"

def pictographRanges : Ranges := .ofString
  "a9 5 1f8e d d9 17 5b-5 10-1 170-1 d 60 47 1a-a 5-2 c8 e8-1 b a 3b-3 2-5 2-b 2-71 b-75 3-a 2 2 7
   4 7 b-1 10 3 5 2 5-2 2 c-4 2e-2 a f f 175-1 1d0-2 14-1 34 5 4db d 25a 2 1bd67-ff e-2 20 3d-5 d-1
   f 3-9 13-38 1c-e b 15 3-8 2-3 a-1b1 6-13d 9-109 31-7f 75-b 56-2a d-3 39-7 b-5 29-7 1f-51 d-2e
   2-9 2-1b8 101-3fd"

inductive ClusterClass where
  | control
  | joining
  | spacing
  | joiner
  | leading
  | regional
  | pictograph
  | hangulL
  | hangulV
  | hangulT
  | hangulLV
  | hangulLVT
  | other
  deriving DecidableEq, Repr, Inhabited

def isWithin (n low high : Nat) : Bool := low ≤ n && n ≤ high

def ClusterClass.ofCode (n : Nat) : ClusterClass :=
  if n < 0x300 then
    if n < 0x20 || isWithin n 0x7F 0x9F || n = 0xAD then .control
    else if n = 0xA9 || n = 0xAE then .pictograph
    else .other
  else if n = 0x200D then .joiner
  else if isWithin n 0x1100 0x115F || isWithin n 0xA960 0xA97C then .hangulL
  else if isWithin n 0x1160 0x11A7 || isWithin n 0xD7B0 0xD7C6 then .hangulV
  else if isWithin n 0x11A8 0x11FF || isWithin n 0xD7CB 0xD7FB then .hangulT
  else if isWithin n 0xAC00 0xD7A3 then
    if (n - 0xAC00) % 28 = 0 then .hangulLV else .hangulLVT
  else if isWithin n 0x1F1E6 0x1F1FF then .regional
  else if joiningRanges.contains n then .joining
  else if spacingRanges.contains n then .spacing
  else if controlRanges.contains n then .control
  else if leadingRanges.contains n then .leading
  else if pictographRanges.contains n then .pictograph
  else .other

def ClusterClass.ofRune : Rune → ClusterClass
  | .char c => .ofCode c.toNat
  | .stray _ => .other

structure ClusterEnd where
  last : ClusterClass
  pictograph : Bool
  joined : Bool
  oddRegional : Bool

def ClusterEnd.ofClass (c : ClusterClass) : ClusterEnd where
  last := c
  pictograph := c == .pictograph
  joined := false
  oddRegional := c == .regional

def ClusterEnd.continues (e : ClusterEnd) (next : ClusterClass) : Bool :=
  match e.last, next with
  | .control, _ | _, .control => false
  | _, .joining | _, .spacing | _, .joiner => true
  | .leading, _ => true
  | .hangulL, .hangulL | .hangulL, .hangulV | .hangulL, .hangulLV | .hangulL, .hangulLVT => true
  | .hangulLV, .hangulV | .hangulV, .hangulV | .hangulLV, .hangulT | .hangulV, .hangulT => true
  | .hangulLVT, .hangulT | .hangulT, .hangulT => true
  | _, .pictograph => e.joined
  | .regional, .regional => e.oddRegional
  | _, _ => false

def ClusterEnd.extend (e : ClusterEnd) (next : ClusterClass) : ClusterEnd where
  last := next
  pictograph := next == .pictograph || (e.pictograph && next == .joining)
  joined := e.pictograph && next == .joiner
  oddRegional := next == .regional && !e.oddRegional

/-- Divides characters into clusters; the first list is the cluster at hand, from its end. -/
def clustersFrom : (cluster : List Rune) → ClusterEnd → List Rune → List (List Rune)
  | cluster, _, [] => [cluster.reverse]
  | cluster, e, r :: rest =>
    let next := ClusterClass.ofRune r
    if isLineEnd cluster r || e.continues next then clustersFrom (r :: cluster) (e.extend next) rest
    else cluster.reverse :: clustersFrom [r] (.ofClass next) rest
where
  isLineEnd : List Rune → Rune → Bool
    | .char c :: _, .char d => c == '\r' && d == '\n'
    | _, _ => false

def clusters (t : Text) : List (List Rune) :=
  match t.runes with
  | [] => []
  | r :: rest => clustersFrom [r] (.ofClass (.ofRune r)) rest

end MiddleEnd.Text
