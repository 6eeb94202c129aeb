import Netlist.Text.Decomposition

/-!
# Combining classes and canonical compositions

The data that puts marks in order, counts them and joins a character with a mark
after it.  Hangul syllables are not listed: their compositions are computed.
-/

namespace Netlist.Text

/-- The code points of each combining class that is not zero. -/
def combiningClasses : List (Nat × Ranges) :=
  [(1, .read "334-8 1CD4 E2-8 20D2-3 8-A E5-6 A-B 10A39 6AF0-4 BC9E D167-9"),
   (6, .read "16FF0-1"),
   (7, .read "93C BC A3C BC B3C C3C BC 1037 B34 E6 C37 A9B3 110BA 173 CA 236 E9 33B-C 446 C3 5C0 6B7
      83A 943 D42 E94A"),
   (8, .read "3099-A"),
   (9, .read "94D CD A4D CD B4D CD C4D CD D3B-C 4D CA E3A BA F84 1039-A 714-5 34 D2 A60 B44 AA-B
      F2-3 2D7F A806 2C C4 953 C0 AF6 BED 10A3F 1046 70 F B9 133-4 C0 235 EA 34D 442 C2 5BF 63F B6
      72B 839 93D-E E0 A34 47 99 C3F D44-5 97 F41-2"),
   (10, .read "5B0"),
   (11, .read "5B1"),
   (12, .read "5B2"),
   (13, .read "5B3"),
   (14, .read "5B4"),
   (15, .read "5B5"),
   (16, .read "5B6"),
   (17, .read "5B7"),
   (18, .read "5B8 C7"),
   (19, .read "5B9-A"),
   (20, .read "5BB"),
   (21, .read "5BC"),
   (22, .read "5BD"),
   (23, .read "5BF"),
   (24, .read "5C1"),
   (25, .read "5C2"),
   (26, .read "FB1E"),
   (27, .read "64B 8F0"),
   (28, .read "64C 8F1"),
   (29, .read "64D 8F2"),
   (30, .read "618 4E"),
   (31, .read "619 4F"),
   (32, .read "61A 50"),
   (33, .read "651"),
   (34, .read "652"),
   (35, .read "670"),
   (36, .read "711"),
   (84, .read "C55"),
   (91, .read "C56"),
   (103, .read "E38-9"),
   (107, .read "E48-B"),
   (118, .read "EB8-9"),
   (122, .read "EC8-B"),
   (129, .read "F71"),
   (130, .read "F72 A-D 80"),
   (132, .read "F74"),
   (202, .read "321-2 7-8 1DD0"),
   (214, .read "1DCE"),
   (216, .read "31B F39 1D165-6 E-72"),
   (218, .read "1DFA 302A"),
   (220, .read "316-9 C-20 3-6 9-33 9-C 47-9 D-E 53-6 9-A 591 6 B A2-7 A C5 655-6 C F E3 A D 731 4
      7-9 B-C E 42 4 6 8 F2 D 859-B 99-B CF-D3 E3 6 9 D-F F6 9-A 952 F18-9 35 7 C6 108D 93B A18 7F
      B5-A D F-C0 3-4 A B6C CD5-9 C-F ED DC2 A F F9 D F 20E8 C-F A92B-D AB4 FE27-D 101FD 2E0 A0D 3A
      E6 EFD-F F46-7 B D-50 83 5 D17B-82 A-B E4EE 8D0-6"),
   (222, .read "59A AD 1939 302D"),
   (224, .read "302E-F"),
   (226, .read "1D16D"),
   (228, .read "5AE 18A9 DF7-8 302B"),
   (230, .read "300-14 3D-44 6 A-C 50-2 7 B 63-F 483-7 592-5 7-9 C-A1 8-9 B-C F C4 610-7 53-4 7-B
      D-E D6-C F-E2 4 7-8 B-C 730 2-3 5-6 A D F-41 3 5 7 9-A EB-F1 3 816-9 B-23 5-7 9-D 98 C-F CA-E
      D4-E1 4-5 7-8 A-C F3-5 7-8 B-F 951 3-4 FE F82-3 6-7 135D-F 7DD 93A A17 75-C B0-4 B-C C1-2 5-9
      B-E B6B D-73 CD0-2 A-B E0 F4 8-9 DC0-1 3-9 B-C D1-F5 B E 20D0-1 4-7 B-C E1 7 9 F0 CEF-F1
      DE0-FF A66F 74-D 9E-F F0-1 8E0-F1 AB0 2-3 7-8 E-F C1 FE20-6 E-F 10376-A A0F 38 E5 D24-7 EAB-C
      F48-A C 82 4 1100-2 366-C 70-4 45E 6B30-6 D185-9 AA-D 242-4 E000-6 8-18 B-21 3-4 6-A 8F 130-6
      2AE EC-F 4EF 944-9"),
   (232, .read "315 A 58 1DF6 302C 1E4EC-D"),
   (233, .read "35C F 62 1DFC"),
   (234, .read "35D-E 60-1 1DCD"),
   (240, .read "345")]

/-- Code points that are decomposed into several and never composed again. -/
def exclusionRanges : Ranges :=
  .read "344 958-F DC-D F A33 6 59-B E B5C-D F43 D 52 7 C 69 73 5-6 8 81 93 D A2 7 C B9 1F71 3 5 7 9
    B D BB C9 B D3 B E3 B E F9 B 212B ADC FB1D-4E 1D15E-C0"

/-- The decompositions into several code points that a composition undoes. -/
def composable : List (Nat × List Nat) :=
  decompositions.toList.filter fun e =>
    2 ≤ e.2.length && !exclusionRanges.any fun r => r.1 ≤ e.1 && e.1 ≤ r.2

/-- Pairs of code points that compose into one: what all but the last part of a decomposition
compose into, the last part, and the code point that is decomposed. -/
def compositions : Array (Nat × Nat × Nat) :=
  (composable.filterMap fun e => do
    let front := e.2.dropLast
    let first ←
      if front.length == 1 then front.head? else (composable.find? (·.2 == front)).map (·.1)
    return (first, ← e.2.getLast?, e.1)).toArray

/-- Bases that count as one mark, because they are other forms of a mark or of a letter
inside a syllable. -/
def markFormRanges : Ranges :=
  .read "3133 5-6 A-F 4F-63 FF9E-F A3 5-6 A-F C2-7 A-F D2-7 A-C"

/-- Other characters with more marks at their end than their decomposition shows, because
they are other forms of a longer spelling; with the number of marks. -/
def hiddenMarks : List (Nat × Ranges) :=
  [(1, .read "A8 F B4 8 1C4-6 2D8-D 37A 84 1FBD F-C0 FD-E 2017 3E 309B-C 26E-7E 304 7 10 E 21 32 B
      40 B E FBA4-5 B0-1 C5B-D 90 D9 D3C-D E49-C 70-2 4 6-F 81-C F5-A FE3 1F213"),
   (2, .read "385 F77 9 1FC1 D-F DD-F ED-E FC5E-63 F2-4")]

end Netlist.Text
