import Netlist.Text.Table

/-!
# Classes of characters for the cells of a terminal

A terminal draws some characters over two cells.  They are the ideographs and
full-width forms, and of the pictures those that are drawn in colour unless the
text asks for a plain sign.
-/

namespace Netlist.Text

/-- Ideographs, syllables and full-width forms. -/
def fullWidthRanges : Ranges :=
  .read "1100-5F 231A-B 29-A E9-C F0 3 5FD-E 614-5 48-53 7F 93 A1 A-B BD-E C4-5 E D4 EA F2-3 5 A D
    705 A-B 28 4C E 53-5 7 95-7 B0 F B1B-C 50 5 E80-99 B-F3 F00-D5 F0-B 3000-3E 41-96 9-FF 105-2F
    31-8E 90-E3 F0-21E 20-47 50-4DBF E00-A48C 90-C6 960-7C C00-D7A3 F900-AFF E10-9 30-52 4-66 8-B
    F01-60 E0-6 16FE0-4 F0-1 7000-87F7 800-CD5 D00-8 AFF0-3 5-B D-E B000-122 32 50-2 5 64-7 70-2FB
    F004 CF 18E 91-A 200-2 10-3B 40-8 50-1 60-5 300-20 D-35 7-7C E-93 A0-CA F-D3 E0-F0 4 8-43E 40
    2-FC F-53D 4B-E 50-67 7A 95-6 A4 FB-64F 80-C5 C D0-2 5-7 C-F EB-C F4-C 7E0-B F0 90C-3A C-45 7-FF
    A70-C 80-8 90-BD F-C5 E-DB E0-8 F0-8 20000-FFFD 30000-FFFD"

/-- Pictures that are drawn in colour by default. -/
def colourPictureRanges : Ranges :=
  .read "231A-B E9-C F0 3 5FD-E 614-5 48-53 7F 93 A1 A-B BD-E C4-5 E D4 EA F2-3 5 A D 705 A-B 28 4C
    E 53-5 7 95-7 B0 F B1B-C 50 5 1F004 CF 18E 91-A E6-FF 201 1A 2F 32-6 8-A 50-1 300-20 D-35 7-7C
    E-93 A0-CA F-D3 E0-F0 4 8-43E 40 2-FC F-53D 4B-E 50-67 7A 95-6 A4 FB-64F 80-C5 C D0-2 5-7 C-F
    EB-C F4-C 7E0-B F0 90C-3A C-45 7-FF A70-C 80-8 90-BD F-C5 E-DB E0-8 F0-8"

end Netlist.Text
