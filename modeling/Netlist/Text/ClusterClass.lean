import Netlist.Text.Table

/-!
# Classes of characters for cluster boundaries

What a reader sees as one character may be several code points: a base with its
marks, a syllable spelled in letters, a flag, or pictures that are joined.  The
class of a code point decides where such a cluster ends.
-/

namespace Netlist.Text

/-- The class of a code point at a cluster boundary. -/
inductive ClusterClass where
  | other
  | carriageReturn
  | lineFeed
  | control
  | extend
  | joiner
  | spacing
  | prepend
  | leading
  | vowel
  | trailing
  | openSyllable
  | closedSyllable
  | regional
  | pictograph
  deriving DecidableEq, Repr

/-- Controls and format characters, the line ends apart. -/
def controlRanges : Ranges :=
  .read "0-9 B-C E-1F 7F-9F AD 61C 180E 200B E-F 28-E 60-F FEFF FF0-B 13430-F BCA0-3 D173-A E0000-1F
    80-FF 1F0-FFF"

/-- Marks that extend the cluster before them. -/
def extendRanges : Ranges :=
  .read "300-6F 483-9 591-BD F C1-2 4-5 7 610-A 4B-5F 70 D6-C F-E4 7-8 A-D 711 30-4A A6-B0 EB-F3 D
    816-9 B-23 5-7 9-D 59-B 98-F CA-E1 3-902 3A C 41-8 D 51-7 62-3 81 BC E C1-4 D D7 E2-3 FE A01-2
    3C 41-2 7-8 B-D 51 70-1 5 81-2 BC C1-5 7-8 D E2-3 FA-F B01 3C E-F 41-4 D 55-7 62-3 82 BE C0 D D7
    C00 4 3C E-40 6-8 A-D 55-6 62-3 81 BC F C2 6 C-D D5-6 E2-3 D00-1 3B-C E 41-4 D 57 62-3 81 CA F
    D2-4 6 F E31 4-A 47-E B1 4-C C8-E F18-9 35 7 9 71-E 80-4 6-7 D-97 9-BC C6 102D-30 2-7 9-A D-E
    58-9 E-60 71-4 82 5-6 D 9D 35D-F 712-4 32-3 52-3 72-3 B4-5 7-D C6 9-D3 D 80B-D F 85-6 A9 920-2
    7-8 32 9-B A17-8 B 56 8-E 60 2 5-C 73-C F B0-CE B00-3 34-A C 42 6B-73 80-1 A2-5 8-9 B-D E6 8-9 D
    F-F1 C2C-33 6-7 D0-2 4-E0 2-8 D F4 8-9 DC0-FF 200C D0-F0 CEF-F1 D7F E0-FF 302A-F 99-A A66F-72
    4-D 9E-F F0-1 802 6 B 25-6 C C4-5 E0-F1 F 926-D 47-51 80-2 B3 6-9 C-D E5 A29-E 31-2 5-6 43 C 7C
    B0 2-4 7-8 E-F C1 EC-D F6 BE5 8 D FB1E E00-F 20-F F9E-F 101FD 2E0 376-A A01-3 5-6 C-F 38-A F
    E5-6 D24-7 EAB-C FD-F F46-50 82-5 1001 38-46 70 3-4 F-81 B3-6 9-A C2 100-2 27-B D-34 73 80-1
    B6-E C9-C F 22F-31 4 6-7 E 41 DF E3-A 300-1 3B-C E 40 57 66-C 70-4 438-F 42-4 6 5E B0 3-8 A D
    F-C0 2-3 5AF B2-5 C-D F-C0 DC-D 633-A D F-40 AB D B0-5 7 71D-F 22-5 7-B 82F-37 9-A 930 B-C E 43
    D4-7 A-B E0 A01-A 33-8 B-E 47 51-6 9-B 8A-96 8-9 C30-6 8-D F 92-A7 A-B0 2-3 5-6 D31-6 A C-D F-45
    7 90-1 5 7 EF3-4 F00-1 36-A 40 2 3440 7-55 6AF0-4 B30-6 F4F 8F-92 E4 BC9D-E CF00-2D 30-46 D165
    7-9 E-72 B-82 5-B AA-D 242-4 A00-36 B-6C 75 84 9B-F A1-F E000-6 8-18 B-21 3-4 6-A 8F 130-6 2AE
    EC-F 4EC-F 8D0-6 944-A F3FB-F E0020-7F 100-EF"

/-- Marks with a width that belong to the cluster before them. -/
def spacingRanges : Ranges :=
  .read "903 3B E-40 9-C E-F 82-3 BF-C0 7-8 B-C A03 3E-40 83 BE-C0 9 B-C B02-3 40 7-8 B-C BF C1-2
    6-8 A-C C01-3 41-4 82-3 BE C0-1 3-4 7-8 A-B F3 D02-3 3F-40 6-8 A-C 82-3 D0-1 8-E F2-3 E33 B3
    F3E-F 7F 1031 B-C 56-7 84 715 34 B6 E-C5 7-8 923-6 9-B 30-1 3-8 A19-A 55 7 6D-72 B04 3B D-41 3-4
    82 A1 6-7 A E7 A-C E F2-3 C24-B 34-5 E1 F7 A823-4 7 80-1 B4-C3 952-3 83 B4-5 A-B E-C0 A2F-30 3-4
    4D EB E-F F5 BE3-4 6-7 9-A C 11000 2 82 B0-2 7-8 12C 45-6 82 B3-5 F-C0 E 22C-E 32-3 5 E0-2 302-3
    3F 41-4 7-8 B-D 62-3 435-7 40-1 5 B1-2 9 B-C E C1 5B0-1 8-B E 630-2 B-C E AC E-F B6 726 82C-E 38
    931-5 7-8 D 40 2 D1-3 C-F E4 A39 57-8 97 C2F 3E A9 B1 4 D8A-E 93-4 6 EF5-6 F03 34-5 E-F 41
    6F51-87 F0-1 D166 D"

/-- Characters that belong to the cluster after them. -/
def prependRanges : Ranges :=
  .read "600-5 DD 70F 890-1 E2 D4E 110BD CD 1C2-3 93F 41 A3A 84-9 D46 F02"

/-- Pictures that a joiner can join. -/
def pictographRanges : Ranges :=
  .read "A9 E 203C 49 122 39 94-9 A9-A 31A-B 28 88 CF E9-F3 8-A 4C2 5AA-B B6 C0 FB-E 600-5 7-12 4-85
    90-705 8-12 4 6 D 21 8 33-4 44 7 C E 53-5 7 63-7 95-7 A1 B0 F 934-5 B05-7 1B-C 50 5 3030 D 297 9
    1F000-FF 10D-F 2F 6C-71 E-F 8E 91-A AD-E5 201-F 1A 2F 32-A C-F 49-3FA 400-53D 46-64F 80-FF 774-F
    D5-FF 80C-F 48-F 5A-F 88-F AE-FF 90C-3A C-45 7-AFF C00-FFD"

/-- Leading letters of syllables. -/
def leadingRanges : Ranges :=
  .read "1100-5F A960-7C"

/-- Vowels of syllables. -/
def vowelRanges : Ranges :=
  .read "1160-A7 D7B0-C6"

/-- Trailing letters of syllables. -/
def trailingRanges : Ranges :=
  .read "11A8-FF D7CB-FB"

def clusterClass (c : Char) : ClusterClass :=
  let n := c.toNat
  if n == 0x0D then .carriageReturn
  else if n == 0x0A then .lineFeed
  else if n == 0x200D then .joiner
  else if 0x20 ≤ n && n < 0x7F then .other
  else if 0xAC00 ≤ n && n ≤ 0xD7A3 then
    if (n - 0xAC00) % 28 == 0 then .openSyllable else .closedSyllable
  else if 0x1F1E6 ≤ n && n ≤ 0x1F1FF then .regional
  else if controlRanges.holds c then .control
  else if extendRanges.holds c then .extend
  else if spacingRanges.holds c then .spacing
  else if prependRanges.holds c then .prepend
  else if leadingRanges.holds c then .leading
  else if vowelRanges.holds c then .vowel
  else if trailingRanges.holds c then .trailing
  else if pictographRanges.holds c then .pictograph
  else .other

end Netlist.Text
