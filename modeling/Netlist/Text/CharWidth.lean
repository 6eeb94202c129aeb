import Netlist.Text.Table

/-!
# Widths of characters on a screen

A character takes no column when it is a control or a format character or a
combining mark, two columns when it is an ideograph, a full-width form or an
emoji, and one column otherwise.
-/

namespace Netlist.Text

/-- Format characters and other code points that are not shown. -/
def hiddenRanges : Ranges :=
  .read "70F 180B-E 200B-F 28-E 6A-F D800-FFF FEFF FF9-B E-F"

/-- Marks that stand above, below or around the character before them. -/
def overlayRanges : Ranges :=
  .read "300-6F 483-9 7EB-F3 C00 4 F3 D00-1 135D-F A7F B0-CE B6B-73 DC0-FF 20D0-F0 CEF-F1 DE0-FF
    3099-A A66F-72 4-D 9E-F F0-1 8E0-F1 FE20-F 101FD 376-A EAB-C F46-50 82-5 1300-1 3B-C 66-C 70-4
    6AF0-4 CF00-2D 30-46 D165-9 D-72 B-82 5-B AA-D 242-4 E000-6 8-18 B-21 3-4 6-A 8F 8D0-6"

/-- Characters that take two columns. -/
def wideRanges : Ranges :=
  .read "1100-5F 231A-B 29-A E9-C F0 3 5FD-E 614-5 48-53 7F 93 A1 A-B BD-E C4-5 E D4 EA F2-3 5 A D
    705 A-B 28 4C E 53-5 7 95-7 B0 F B1B-C 50 5 E80-99 B-F3 F00-D5 F0-303E 41-96 9-FF 105-2F 31-8E
    90-E3 F-21E 20-47 50-4DBF E00-A48C 90-C6 960-7C C00-D7A3 F900-AFF E10-9 30-52 4-66 8-B F01-60
    E0-6 16FE0-4 F0-1 7000-87F7 800-CD5 D00-8 AFF0-3 5-B D-E B000-122 32 50-2 5 64-7 70-2FB F004 CF
    18E 91-A 200-2 10-3B 40-8 50-1 60-5 300-20 D-35 7-7C E-93 A0-CA F-D3 E0-F0 4 8-43E 40 2-FC F-53D
    4B-E 50-67 7A 95-6 A4 FB-64F 80-C5 C D0-2 5-7 C-F EB-C F4-C 7E0-B F0 90C-3A C-45 7-FF A70-C 80-8
    90-BD F-C5 E-DB E0-8 F0-8 20000-FFFD 30000-FFFD"

/-- The number of columns of a character. -/
def charWidth (c : Char) : Nat :=
  let n := c.toNat
  if n < 0x20 then 0
  else if (0x7F ≤ n && n ≤ 0x9F) || n == 0xAD then 0
  else if n < 0x300 then 1
  else if hiddenRanges.holds c || overlayRanges.holds c then 0
  else if wideRanges.holds c then 2
  else 1

end Netlist.Text
